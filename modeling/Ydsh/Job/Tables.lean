import Ydsh.Job.Attach
import Ydsh.Job.Removal
import Ydsh.Job.Report

/-
  The tables along the runs of a shell.

  Main declarations:
    * `Shell.Consistent`
    * `Shell.Consistent.step`
    * `TablesFaithful`
    * `tablesFaithful_of_run`
-/

----
-- Invariant
----

namespace Ydsh

namespace Job

open Library

namespace JobTable

variable {table : JobTable}
variable {children : List Int}
variable {procs : List Proc}

theorem Consistent.mono
    {more : List Int}
    (hTable : table.Consistent children)
    (hMore : children ⊆ more) :
    table.Consistent more :=
  { hTable with
    pids := by
      intro job offset proc hHold
      have hChild := hTable.pids job offset proc hHold
      exact ⟨hChild.1, hMore hChild.2⟩ }

/- Without deleted entries every entry belongs to a child. -/
theorem Consistent.entry_pid
    (hTable : table.Consistent children)
    (hMarked : table.procTable.deletedCount = 0)
    {entry : Entry}
    (hEntry : entry ∈ table.procTable.entries) :
    entry.pid ∈ children := by
  have hLive : entry.isDeleted = false := by
    have hCount := hTable.wellFormed.deletedCount_eq
    rw [hMarked] at hCount
    have hNone := List.countP_eq_zero.mp hCount.symm entry hEntry
    exact Bool.not_eq_true _ ▸ hNone
  rcases (hTable.entries entry).mp ⟨hEntry, hLive⟩ with
    ⟨job, proc, hHold, hPid, _⟩
  rw [hPid]
  exact (hTable.pids _ _ _ hHold).2

theorem FreshProcs.nil :
    table.FreshProcs children [] where
  live := nofun
  ended := nofun
  distinct := List.Pairwise.nil

/- The operating system picks a process id no child has. -/
theorem FreshProcs.fork
    (hTable : table.Consistent children)
    (hMarked : table.procTable.deletedCount = 0)
    (hProcs : table.FreshProcs children procs)
    {pid : Int}
    (hPos : 0 < pid)
    (hNew : pid ∉ children) :
    table.FreshProcs (pid :: children)
      (procs ++ [Proc.ofPid pid]) where
  live := by
    intro proc hProc hLive
    rcases List.mem_append.mp hProc with hOld | hForked
    · have hFound := hProcs.live proc hOld hLive
      exact
        ⟨hFound.1, List.mem_cons_of_mem pid hFound.2.1, hFound.2.2⟩
    · rw [List.mem_singleton.mp hForked]
      refine ⟨hPos, List.mem_cons_self, fun entry hEntry hSame => ?_⟩
      have hChild := hTable.entry_pid hMarked hEntry
      rw [hSame] at hChild
      exact hNew hChild
  ended := by
    intro proc hProc hEnded
    rcases List.mem_append.mp hProc with hOld | hForked
    · exact hProcs.ended proc hOld hEnded
    · rw [List.mem_singleton.mp hForked] at hEnded
      cases hEnded
  distinct := by
    refine List.pairwise_append.mpr
      ⟨hProcs.distinct, List.pairwise_singleton _ _, ?_⟩
    intro proc hProc other hForked hLive hSame
    rw [List.mem_singleton.mp hForked] at hSame
    have hChild := (hProcs.live proc hProc hLive).2.1
    rw [hSame] at hChild
    exact hNew hChild

theorem ended_pid
    (proc : Proc)
    {status : WaitStatus}
    (hEnds : status.terminates = true) :
    (proc.applyStatus status).pid = -1 := by
  cases status with
  | exited _ => rfl
  | signaled _ => rfl
  | stopped _ => cases hEnds
  | continued => cases hEnds

/- Two processes at different places have different ids. -/
theorem FreshProcs.pid_ne
    (hProcs : table.FreshProcs children procs)
    {i j : Nat}
    {proc other : Proc}
    (hI : procs[i]? = some proc)
    (hJ : procs[j]? = some other)
    (hNe : i ≠ j)
    (hLive : proc.isTerminated = false)
    (hOther : other.isTerminated = false) :
    proc.pid ≠ other.pid := by
  rcases List.getElem?_eq_some_iff.mp hI with ⟨hIBound, hProc⟩
  rcases List.getElem?_eq_some_iff.mp hJ with ⟨hJBound, hFound⟩
  have hPair := List.pairwise_iff_getElem.mp hProcs.distinct
  rcases Nat.lt_or_gt_of_ne hNe with hLt | hGt
  · have hDiffer := hPair i j hIBound hJBound hLt
    rw [hProc, hFound] at hDiffer
    exact hDiffer hLive
  · have hDiffer := hPair j i hJBound hIBound hGt
    rw [hProc, hFound] at hDiffer
    exact (hDiffer hOther).symm

/- A process that is not attached may be waited for. -/
theorem FreshProcs.procWait
    (hProcs : table.FreshProcs children procs)
    {offset : Nat}
    {proc : Proc}
    {status : WaitStatus}
    (hGet : procs[offset]? = some proc)
    (hLive : proc.isTerminated = false) :
    table.FreshProcs (reap children { pid := proc.pid, status })
      (procs.set offset (proc.applyStatus status)) := by
  have hPid := hProcs.live proc (List.mem_of_getElem? hGet) hLive
  have hIndex := (List.getElem?_eq_some_iff.mp hGet).1
  have hCases :
      ∀ found ∈ procs.set offset (proc.applyStatus status),
        found = proc.applyStatus status ∨
          ∃ i, i ≠ offset ∧ procs[i]? = some found := by
    intro found hFound
    rcases List.mem_iff_getElem?.mp hFound with ⟨i, hI⟩
    rw [List.getElem?_set] at hI
    split at hI
    · cases hI
      exact Or.inl rfl
    · next hNe => exact Or.inr ⟨i, Ne.symm hNe, hI⟩
  constructor
  · intro found hFound hAlive
    rcases hCases found hFound with rfl | ⟨i, hNe, hI⟩
    · rw [applyStatus_isTerminated] at hAlive
      rw [applyStatus_pid proc hAlive, reap, hAlive]
      exact hPid
    · have hOld :=
        hProcs.live found (List.mem_of_getElem? hI) hAlive
      refine ⟨hOld.1, ?_, hOld.2.2⟩
      unfold reap
      split
      · refine List.mem_filter.mpr ⟨hOld.2.1, ?_⟩
        exact
          bne_iff_ne.mpr (hProcs.pid_ne hI hGet hNe hAlive hLive)
      · exact hOld.2.1
  · intro found hFound hEnded
    rcases hCases found hFound with rfl | ⟨i, _, hI⟩
    · rw [applyStatus_isTerminated] at hEnded
      rw [ended_pid proc hEnded]
      decide
    · exact hProcs.ended found (List.mem_of_getElem? hI) hEnded
  · refine List.pairwise_iff_getElem.mpr ?_
    intro i j hI hJ hLt hAlive
    rw [List.length_set] at hI hJ
    have hDiffer :=
      List.pairwise_iff_getElem.mp hProcs.distinct i j hI hJ hLt
    simp only [List.getElem_set] at hAlive ⊢
    have hSelf := (List.getElem?_eq_some_iff.mp hGet).2
    by_cases hFirst : offset = i
    · subst hFirst
      simp only [if_true] at hAlive ⊢
      rw [if_neg (Nat.ne_of_lt hLt)]
      rw [applyStatus_isTerminated] at hAlive
      rw [applyStatus_pid proc hAlive]
      rw [hSelf] at hDiffer
      exact hDiffer hLive
    · rw [if_neg hFirst] at hAlive ⊢
      by_cases hSecond : offset = j
      · subst hSecond
        simp only [if_true]
        have hFound := List.getElem?_eq_getElem hI
        have hOld :=
          hProcs.live _ (List.mem_of_getElem? hFound) hAlive
        cases hStatus : status.terminates with
        | true =>
            rw [ended_pid proc hStatus]
            omega
        | false =>
            rw [applyStatus_pid proc hStatus]
            rw [hSelf] at hDiffer
            exact hDiffer hAlive
      · rw [if_neg hSecond]
        exact hDiffer hAlive

end JobTable

/-
  Outside of wait operations no entry is deleted, and the
  processes still to be attached are new to the table.
-/
structure Shell.Consistent (shell : Shell) : Prop where
  table : shell.table.Consistent shell.children
  unattached :
    ∀ procs,
      shell.phase.unattached = some procs →
      shell.table.procTable.deletedCount = 0 ∧
        shell.table.FreshProcs shell.children procs ∧
        (procs ≠ [] → shell.table.jobs.length < 65535)

----
-- Steps
----

namespace Phase

/- A wait operation has not returned yet. -/
def busy : Phase → Bool
  | finishing _ _ => true
  | phase => phase.waits

end Phase

namespace Shell

theorem busy_unattached
    {phase : Phase}
    (hBusy : phase.busy = true) :
    phase.unattached = none := by
  cases phase with
  | idle => cases hBusy
  | spawned procs => cases hBusy
  | returned call status => cases hBusy
  | aborted => cases hBusy
  | _ => rfl

theorem afterJob_busy
    (job : Option JobRef)
    (op : WaitOp)
    (step : WaitStep) :
    (afterJob job op step).busy = true := by
  cases step with
  | finished status => rfl
  | waiting lastStatus => rfl

theorem afterAll_busy
    (op : WaitOp)
    (waitOne : Bool)
    (step : WaitStep × Option (JobRef × List JobRef)) :
    (afterAll op waitOne step).busy = true := by
  rcases step with ⟨_ | _, _ | ⟨_, _⟩⟩
  · rfl
  · rfl
  · rfl
  · rfl

theorem nextJob_busy
    (table : JobTable)
    (job : JobRef)
    (rest : List JobRef)
    (op : WaitOp)
    (waitOne : Bool)
    (step : WaitStep) :
    (nextJob table job rest op waitOne step).busy = true := by
  cases step with
  | finished status =>
      simp only [nextJob]
      split
      · rfl
      · exact afterAll_busy op waitOne _
  | waiting lastStatus => rfl

theorem afterReport_busy
    {table : JobTable}
    {found : Option (JobRef × Nat)}
    {phase : Phase}
    (hWaits : phase.waits = true) :
    (afterReport table found phase).busy = true := by
  cases phase with
  | waitForJob job op lastStatus =>
      exact afterJob_busy job op _
  | waitForAny => rfl
  | waitForAll job rest op waitOne lastStatus =>
      exact nextJob_busy table job rest op waitOne _
  | idle => cases hWaits
  | spawned procs => cases hWaits
  | finishing call status => cases hWaits
  | returned call status => cases hWaits
  | aborted => cases hWaits

theorem afterNoReport_busy
    {table : JobTable}
    {phase next : Phase}
    (hNext : afterNoReport table phase = some next) :
    next.busy = true := by
  unfold afterNoReport at hNext
  split at hNext
  · cases hNext
    exact afterJob_busy _ _ _
  · cases hNext
    rfl
  · cases hNext
    exact nextJob_busy _ _ _ _ _ _
  · cases hNext

theorem afterError_busy
    {table : JobTable}
    {phase next : Phase}
    (hNext : afterError table phase = some next) :
    next.busy = true := by
  unfold afterError at hNext
  split at hNext
  · cases hNext
    exact afterJob_busy _ _ _
  · cases hNext
    rfl
  · cases hNext
    exact nextJob_busy _ _ _ _ _ _
  · cases hNext

theorem Consistent.of_waiting
    {shell : Shell}
    (hTable : shell.table.Consistent shell.children)
    (hPhase : shell.phase.busy = true) :
    shell.Consistent where
  table := hTable
  unattached := by
    intro procs hProcs
    rw [busy_unattached hPhase] at hProcs
    cases hProcs

theorem Consistent.of_idle
    {shell : Shell}
    (hTable : shell.table.Consistent shell.children)
    (hMarked : shell.table.procTable.deletedCount = 0)
    (hPhase : shell.phase.unattached = some []) :
    shell.Consistent where
  table := hTable
  unattached := by
    intro procs hProcs
    rw [hPhase] at hProcs
    cases hProcs
    exact
      ⟨hMarked, JobTable.FreshProcs.nil, fun hNil => (hNil rfl).elim⟩

theorem Consistent.start
    (inherited : List Int) :
    (start inherited).Consistent :=
  Consistent.of_idle (JobTable.Consistent.empty inherited) rfl rfl

section

variable {shell next : Shell}

theorem isIdle_unattached
    {phase : Phase}
    (hIdle : phase.isIdle = true) :
    phase.unattached = some [] := by
  cases phase with
  | idle => rfl
  | returned call status => rfl
  | spawned procs => cases hIdle
  | waitForJob job op lastStatus => cases hIdle
  | waitForAny => cases hIdle
  | waitForAll job rest op waitOne lastStatus => cases hIdle
  | finishing call status => cases hIdle
  | aborted => cases hIdle

theorem Consistent.fork
    (hShell : shell.Consistent)
    {pid : Int}
    (hStep : shell.fork pid = some next) :
    next.Consistent := by
  unfold Shell.fork at hStep
  split at hStep
  · next hPid =>
      rcases hPid with ⟨hPos, hNew, hLength⟩
      rcases Option.map_eq_some_iff.mp hStep with
        ⟨procs, hProcs, rfl⟩
      rcases hShell.unattached procs hProcs with
        ⟨hMarked, hFresh, _⟩
      constructor
      · exact hShell.table.mono (List.subset_cons_self _ _)
      · intro spawned hSpawned
        cases hSpawned
        exact
          ⟨hMarked,
            hFresh.fork hShell.table hMarked hPos hNew,
            fun _ => hLength⟩
  · cases hStep

theorem procWait_eq_some
    {offset : Nat}
    {status : WaitStatus}
    (hStep : shell.procWait offset status = some next) :
    ∃ procs proc,
      shell.phase = .spawned procs ∧
        procs[offset]? = some proc ∧
        proc.isTerminated = false ∧
        next =
          { shell with
            children :=
              reap shell.children { pid := proc.pid, status }
            phase :=
              .spawned
                (procs.set offset (proc.applyStatus status)) } := by
  unfold Shell.procWait at hStep
  split at hStep
  · next procs hPhase =>
      rcases Option.bind_eq_some_iff.mp hStep with
        ⟨proc, hGet, hNext⟩
      split at hNext
      · cases hNext
      · next hLive =>
          simp only [Bool.not_eq_true] at hLive
          refine ⟨procs, proc, hPhase, hGet, hLive, ?_⟩
          cases hNext
          have hUpdate :
              proc.updateState { pid := proc.pid, status } =
                proc.applyStatus status := by
            unfold Proc.updateState
            rw [if_neg]
            simp [hLive]
          rw [hUpdate]
  · cases hStep

theorem Consistent.procWait
    (hShell : shell.Consistent)
    {offset : Nat}
    {status : WaitStatus}
    (hStep : shell.procWait offset status = some next) :
    next.Consistent := by
  rcases procWait_eq_some hStep with
    ⟨procs, proc, hPhase, hGet, hLive, rfl⟩
  have hProcs : shell.phase.unattached = some procs := by
    rw [hPhase]
    rfl
  rcases hShell.unattached procs hProcs with
    ⟨hMarked, hFresh, hLength⟩
  constructor
  · refine hShell.table.reap ?_
    intro job place found hHold hSame
    have hEntry :=
      (hShell.table.entries
          { pid := found.pid
            jobId := shell.table.jobIDOf job
            procOffset := place }).mpr
        ⟨job, found, hHold, rfl, rfl⟩
    have hNew :=
      hFresh.live proc (List.mem_of_getElem? hGet) hLive
    exact hNew.2.2 _ hEntry.1 hSame
  · intro spawned hSpawned
    cases hSpawned
    refine
      ⟨hMarked, hFresh.procWait hGet hLive, fun _ => hLength ?_⟩
    rintro rfl
    cases hGet

/- What attaching does to the tables. -/
theorem Consistent.attached
    (hShell : shell.Consistent)
    {disowned : Bool}
    (hStep : shell.attach disowned = some next) :
    ∃ procs,
      shell.phase = .spawned procs ∧
        procs.all Proc.isTerminated = false ∧
        JobTable.Attached shell.table next.table procs ∧
        next.children = shell.children ∧
        next.phase = .idle := by
  unfold Shell.attach at hStep
  split at hStep
  · next procs hPhase =>
      split at hStep
      · cases hStep
      · next hLive =>
          rcases Option.map_eq_some_iff.mp hStep with
            ⟨table, hAttach, rfl⟩
          simp only [Bool.not_eq_true] at hLive
          have hProcs : shell.phase.unattached = some procs := by
            rw [hPhase]
            rfl
          have hLength := (hShell.unattached procs hProcs).2.2
          refine
            ⟨procs, hPhase, hLive,
              hShell.table.attached_of_attach (hLength ?_) hAttach,
              rfl, rfl⟩
          rintro rfl
          cases hLive
  · cases hStep

theorem Consistent.attach
    (hShell : shell.Consistent)
    {disowned : Bool}
    (hStep : shell.attach disowned = some next) :
    next.Consistent := by
  rcases hShell.attached hStep with
    ⟨procs, hPhase, hLive, hAttached, hChildren, hIdle⟩
  have hProcs : shell.phase.unattached = some procs := by
    rw [hPhase]
    rfl
  rcases hShell.unattached procs hProcs with ⟨hMarked, hFresh, _⟩
  rcases hShell.table.attach hFresh hLive hMarked hAttached with
    ⟨hTable, hCount⟩
  rw [← hChildren] at hTable
  refine Consistent.of_idle hTable hCount ?_
  rw [hIdle]
  rfl

/- What a report does to the tables. -/
theorem report_eq_some
    {ret : WaitResult}
    (hStep : shell.report ret = some next) :
    shell.phase.waits = true ∧ 0 < ret.pid ∧
      ((shell.table.updateProcState ret = none ∧
          next = { shell with phase := .aborted }) ∨
        ∃ table found,
          shell.table.updateProcState ret = some (table, found) ∧
            next =
              { table
                children := reap shell.children ret
                phase :=
                  afterReport table found shell.phase }) := by
  unfold Shell.report at hStep
  split at hStep
  · next hChild =>
      refine ⟨hChild.1, hChild.2.1, ?_⟩
      split at hStep
      · next hUpdate =>
          cases hStep
          exact Or.inl ⟨hUpdate, rfl⟩
      · next table found hUpdate =>
          cases hStep
          exact Or.inr ⟨table, found, hUpdate, rfl⟩
  · cases hStep

theorem Consistent.report
    (hShell : shell.Consistent)
    {ret : WaitResult}
    (hStep : shell.report ret = some next) :
    next.Consistent := by
  rcases report_eq_some hStep with ⟨hWaits, hPos, hOutcome⟩
  rcases hOutcome with ⟨_, rfl⟩ | ⟨table, found, hUpdate, rfl⟩
  · exact { table := hShell.table, unattached := nofun }
  · refine
      Consistent.of_waiting ?_ (afterReport_busy hWaits)
    rcases hShell.table.updateProcState_cases hPos with
      hHeld | ⟨hFree, hElse⟩
    · rcases hHeld with
        ⟨other, job, offset, index, proc, object, hSame, hRecorded⟩
      rw [hUpdate] at hSame
      cases hSame
      exact hRecorded.consistent hShell.table
    · rcases hElse with ⟨_, _, _, hNone⟩ | ⟨_, kept, hKept⟩
      · rw [hUpdate] at hNone
        cases hNone
      · rw [hUpdate] at hKept
        cases hKept
        exact hShell.table.reap hFree

/- Every step keeps the tables in agreement. -/
theorem Consistent.step
    (hShell : shell.Consistent)
    {event : ShellEvent}
    (hStep : shell.step event = some next) :
    next.Consistent := by
  have hIdle :
      ∀ {α : Type} {value : α} {kept : Option α},
        (if shell.phase.isIdle then kept else none) = some value →
        shell.phase.unattached = some [] ∧ kept = some value := by
    intro α value kept hValue
    split at hValue
    · next hPhase => exact ⟨isIdle_unattached hPhase, hValue⟩
    · cases hValue
  cases event with
  | fork pid => exact hShell.fork hStep
  | procWait offset status => exact hShell.procWait hStep
  | attach disowned => exact hShell.attach hStep
  | abandon =>
      rcases Option.map_eq_some_iff.mp hStep with
        ⟨procs, hProcs, rfl⟩
      exact
        Consistent.of_idle hShell.table
          (hShell.unattached procs hProcs).1 rfl
  | child =>
      rcases Option.map_eq_some_iff.mp hStep with
        ⟨procs, hProcs, rfl⟩
      exact
        Consistent.of_idle (hShell.table.detachAll []) rfl rfl
  | detach job =>
      rcases hIdle hStep with ⟨hPhase, hNext⟩
      cases hNext
      exact
        Consistent.of_idle (hShell.table.detach job)
          (hShell.unattached [] hPhase).1 rfl
  | waitForJob job op =>
      rcases hIdle hStep with ⟨_, hNext⟩
      cases hNext
      exact
        Consistent.of_waiting hShell.table
          (afterJob_busy job op _)
  | waitForAny =>
      rcases hIdle hStep with ⟨_, hNext⟩
      cases hNext
      exact Consistent.of_waiting hShell.table rfl
  | waitForAll op waitOne =>
      rcases hIdle hStep with ⟨_, hNext⟩
      cases hNext
      exact
        Consistent.of_waiting hShell.table
          (afterAll_busy op waitOne _)
  | report ret => exact hShell.report hStep
  | noReport =>
      rcases Option.map_eq_some_iff.mp hStep with
        ⟨phase, hPhase, rfl⟩
      exact
        Consistent.of_waiting hShell.table
          (afterNoReport_busy hPhase)
  | waitError =>
      rcases Option.map_eq_some_iff.mp hStep with
        ⟨phase, hPhase, rfl⟩
      exact
        Consistent.of_waiting hShell.table
          (afterError_busy hPhase)
  | removeTerminatedJobs =>
      simp only [Shell.step] at hStep
      split at hStep
      · cases hStep
        exact
          Consistent.of_idle hShell.table.removeTerminatedJobs
            (JobTable.Consistent.removal_deletedCount shell.table)
            rfl
      · cases hStep

theorem consistent_of_run
    {inherited : List Int}
    {events : List ShellEvent}
    (hRun : exec Shell.step (start inherited) events = some shell) :
    shell.Consistent :=
  exec_invariant
    (fun _ _ _ hShell hStep => Consistent.step hShell hStep)
    hRun (Consistent.start inherited)

end

end Shell

----
-- Main Results
----

/-
  The jobs are in order, and the live entries are exactly the
  live processes of the jobs.  Attaching takes the smallest
  free number, and removal takes out exactly the jobs that have
  ended.
-/
structure TablesFaithful (shell : Shell) : Prop where
  sorted : SortedBy shell.table.jobIDOf shell.table.jobs
  live_entries :
    ∀ entry,
      entry ∈ shell.table.procTable.entries ∧
          entry.isDeleted = false ↔
        shell.table.EntryOf entry
  attaches :
    ∀ disowned next,
      shell.step (.attach disowned) = some next →
      ∃ job,
        JobTable.AttachesSmallest shell.table next.table job
  removes :
    ∀ next,
      shell.step .removeTerminatedJobs = some next →
      JobTable.RemovesTerminated shell.table next.table

/- Along every run of a shell the two tables stay in step. -/
theorem tablesFaithful_of_run
    {inherited : List Int}
    {events : List ShellEvent}
    {shell : Shell}
    (hRun :
      exec Shell.step (Shell.start inherited) events =
        some shell) :
    TablesFaithful shell := by
  have hShell := Shell.consistent_of_run hRun
  refine ⟨hShell.table.sorted, hShell.table.entries, ?_, ?_⟩
  · intro disowned next hStep
    rcases hShell.attached hStep with ⟨_, _, _, hAttached, _⟩
    exact ⟨_, hAttached.gap⟩
  · intro next hStep
    simp only [Shell.step] at hStep
    split at hStep
    · cases hStep
      exact hShell.table.removesTerminated
    · cases hStep

/- Two jobs are started, and the first one ends. -/
def twoJobs : List ShellEvent :=
  [.fork 12, .attach false, .fork 34, .attach false,
    .waitForAny, .report { pid := 12, status := .exited 0 },
    .noReport, .removeTerminatedJobs]

theorem tablesFaithful_twoJobs :
    ∃ shell,
      exec Shell.step (Shell.start []) twoJobs = some shell ∧
        TablesFaithful shell := by
  cases hRun : exec Shell.step (Shell.start []) twoJobs with
  | none => exact absurd hRun (by decide +kernel)
  | some shell => exact ⟨shell, rfl, tablesFaithful_of_run hRun⟩

end Job

end Ydsh
