import Ydsh.Job.Tables

/-
  Wait operations under every order of reports.

  A report that does not belong to an attached process is
  looked up like the others, and the lookup fails when it hits
  an entry that is deleted but not removed yet.

  Main declarations:
    * `ResultFaithful`
    * `WaitFaithful`
    * `ReportSafe`
    * `waitFaithful_iff`
-/

----
-- Statement
----

namespace Ydsh

namespace Job

open Library

namespace JobObject

/- No process is running, and at least one is stopped. -/
def Suspended (object : JobObject) : Prop :=
  (∀ proc ∈ object.procs, proc.state ≠ .running) ∧
    ∃ proc ∈ object.procs, proc.state = .stopped

def EndedWith
    (object : JobObject)
    (status : Int) : Prop :=
  object.ended = true ∧ status = object.exitStatus

end JobObject

/- What a status that is no error says about the job. -/
def ResultFaithful
    (table : JobTable)
    (call : WaitCall)
    (status : Int) : Prop :=
  match call with
  | .waitForJob (some job) op =>
      ∀ object,
        table.heap[job]? = some object →
        0 ≤ status →
        match op with
        | .blocking => object.EndedWith status
        | .blockUntraced =>
            object.EndedWith status ∨ object.Suspended
        | .nonblocking => True
  | _ => True

/- Exactly the live process with the id takes the report. -/
structure ReportFaithful
    (table next : JobTable)
    (ret : WaitResult) : Prop where
  recorded :
    ∀ job offset proc,
      table.Holds job offset proc →
      proc.pid = ret.pid →
      next.procAt job offset =
          some (proc.applyStatus ret.status) ∧
        ∀ other place,
          ¬ (job = other ∧ offset = place) →
          next.procAt other place = table.procAt other place
  untouched :
    (∀ job offset proc,
      table.Holds job offset proc → proc.pid ≠ ret.pid) →
    next.procTable = table.procTable ∧
      ∀ job offset,
        next.procAt job offset = table.procAt job offset

namespace ShellEvent

/- The events that may change which jobs are attached. -/
def changesJobs : ShellEvent → Bool
  | attach _ => true
  | child => true
  | removeTerminatedJobs => true
  | _ => false

end ShellEvent

structure WaitFaithful
    (shell : Shell)
    (event : ShellEvent)
    (next : Shell) : Prop where
  completes : next.phase ≠ .aborted
  reports :
    ∀ ret,
      event = .report ret →
      ReportFaithful shell.table next.table ret
  terminated :
    ∀ job offset proc,
      shell.table.procAt job offset = some proc →
      proc.isTerminated = true →
      next.table.procAt job offset = some proc
  results :
    ∀ call status,
      next.phase = .returned call status →
      ResultFaithful next.table call status
  stays :
    event.changesJobs = false →
    next.table.jobs = shell.table.jobs
  leaves :
    ∀ call status,
      next.phase = .returned call status →
      next.table.jobs =
        shell.table.jobs.filter
          (fun job => !shell.table.isEnded job)

/-
  The first entry whose process id is not below the reported
  one, if there is one, has not been deleted.
-/
def ReportSafe
    (shell : Shell)
    (event : ShellEvent) : Prop :=
  match event with
  | .report ret =>
      ∀ entry,
        shell.table.firstNotBelow ret.pid = some entry →
        entry.isDeleted = false
  | _ => True

----
-- Results
----

theorem findLastStopped_eq_some
    {procs : List Proc}
    {last : Option Proc}
    {proc : Proc}
    (hFound : findLastStopped procs last = some proc) :
    (∀ other ∈ procs, other.state ≠ .running) ∧
      (last = some proc ∨
        proc ∈ procs ∧ proc.state = .stopped) := by
  induction procs generalizing last with
  | nil => exact ⟨nofun, Or.inl hFound⟩
  | cons head procs ih =>
      unfold findLastStopped at hFound
      split at hFound
      · cases hFound
      · next hStopped =>
          rcases ih hFound with ⟨hRest, hLast⟩
          refine ⟨?_, Or.inr ?_⟩
          · intro other hOther
            rcases List.mem_cons.mp hOther with rfl | hTail
            · rw [hStopped]
              exact ProcState.noConfusion
            · exact hRest other hTail
          · rcases hLast with hHead | ⟨hTail, hState⟩
            · cases hHead
              exact ⟨List.mem_cons_self, hStopped⟩
            · exact ⟨List.mem_cons_of_mem head hTail, hState⟩
      · next hEnded =>
          rcases ih hFound with ⟨hRest, hLast⟩
          refine ⟨?_, ?_⟩
          · intro other hOther
            rcases List.mem_cons.mp hOther with rfl | hTail
            · rw [hEnded]
              exact ProcState.noConfusion
            · exact hRest other hTail
          · rcases hLast with hOld | ⟨hTail, hState⟩
            · exact Or.inl hOld
            · exact
                Or.inr ⟨List.mem_cons_of_mem head hTail, hState⟩

namespace JobObject

variable {object : JobObject}
variable {op : WaitOp}
variable {status : Int}

/- Only one mode looks for stopped processes. -/
theorem lastStopped_eq_some
    {proc : Proc}
    (hFound : object.lastStopped op = some proc) :
    op = .blockUntraced ∧ object.Suspended := by
  unfold lastStopped at hFound
  split at hFound
  · next hOp =>
      rcases findLastStopped_eq_some hFound with
        ⟨hNone, hLast | ⟨hMem, hState⟩⟩
      · cases hLast
      · exact ⟨hOp, hNone, proc, hMem, hState⟩
  · cases hFound

/- What is known of a job when a wait for it is over. -/
def Finished
    (object : JobObject)
    (op : WaitOp)
    (status : Int) : Prop :=
  0 ≤ status →
    object.EndedWith status ∨
      (op = .blockUntraced ∧ object.Suspended)

theorem ended_of_unavailable
    (hControlled :
      object.state = .terminated → object.ended = true)
    (hState : object.state ≠ .uncontrolled)
    (hUnavailable : object.available ≠ true) :
    object.ended = true := by
  apply hControlled
  unfold available at hUnavailable
  cases hObject : object.state with
  | running =>
      rw [hObject] at hUnavailable
      exact absurd rfl hUnavailable
  | terminated => rfl
  | uncontrolled => exact absurd hObject hState

theorem waitStart_finished
    (hControlled :
      object.state = .terminated → object.ended = true)
    (hStep : object.waitStart op = .finished status) :
    object.Finished op status := by
  intro hStatus
  unfold waitStart at hStep
  split at hStep
  · split at hStep
    · next proc hFound =>
        exact Or.inr (lastStopped_eq_some hFound)
    · cases hStep
  · next hUnavailable =>
      cases hStep
      unfold wait at hStatus ⊢
      split at hStatus
      · next hState =>
          rw [if_pos hState]
          refine Or.inl ⟨?_, rfl⟩
          exact
            ended_of_unavailable hControlled
              (bne_iff_ne.mp hState) hUnavailable
      · exact absurd hStatus (by decide)

theorem waitStart_waiting
    {lastStatus : Int}
    (hStep : object.waitStart op = .waiting lastStatus) :
    object.state ≠ .uncontrolled := by
  intro hState
  unfold waitStart available at hStep
  rw [hState] at hStep
  cases hStep

theorem waitReport_finished
    {lastStatus : Int}
    {proc : Option Proc}
    (hControlled :
      object.state = .terminated → object.ended = true)
    (hState : object.state ≠ .uncontrolled)
    (hStep :
      object.waitReport op lastStatus proc = .finished status) :
    object.Finished op status := by
  intro _
  unfold waitReport at hStep
  dsimp only at hStep
  split at hStep
  · next last hStopped =>
      split at hStopped
      · exact Or.inr (lastStopped_eq_some hStopped)
      · cases hStopped
  · split at hStep
    · cases hStep
    · next hUnavailable =>
        cases hStep
        refine Or.inl ⟨?_, rfl⟩
        exact
          ended_of_unavailable hControlled hState hUnavailable

end JobObject

theorem resultFaithful_of_finished
    {table : JobTable}
    {job : JobRef}
    {op : WaitOp}
    {status : Int}
    (hFinished :
      ∀ object,
        table.heap[job]? = some object →
        object.Finished op status) :
    ResultFaithful table (.waitForJob (some job) op) status := by
  intro object hObject hStatus
  have hDone := hFinished object hObject hStatus
  cases op with
  | blocking =>
      rcases hDone with hEnded | ⟨hOp, _⟩
      · exact hEnded
      · cases hOp
  | blockUntraced => exact hDone.imp_right And.right
  | nonblocking => trivial

/- An error says nothing about the job. -/
theorem resultFaithful_error
    (table : JobTable)
    (call : WaitCall) :
    ResultFaithful table call (-1) := by
  unfold ResultFaithful
  split
  · intro object _ hStatus
    exact absurd hStatus (by decide)
  · trivial

----
-- Phases
----

/- What a phase knows about the job that is waited for. -/
def PhaseFaithful
    (table : JobTable) : Phase → Prop
  | .waitForJob (some job) _ _ =>
      ∀ object,
        table.heap[job]? = some object →
        object.state ≠ .uncontrolled
  | .finishing call status => ResultFaithful table call status
  | .returned call status => ResultFaithful table call status
  | _ => True

namespace Shell

theorem afterAll_faithful
    (table : JobTable)
    (op : WaitOp)
    (waitOne : Bool)
    (step : WaitStep × Option (JobRef × List JobRef)) :
    PhaseFaithful table (afterAll op waitOne step) := by
  rcases step with ⟨_ | _, _ | ⟨_, _⟩⟩ <;> trivial

theorem nextJob_faithful
    (table other : JobTable)
    (job : JobRef)
    (rest : List JobRef)
    (op : WaitOp)
    (waitOne : Bool)
    (step : WaitStep) :
    PhaseFaithful table (nextJob other job rest op waitOne step) := by
  cases step with
  | finished status =>
      simp only [nextJob]
      split
      · trivial
      · exact afterAll_faithful table op waitOne _
  | waiting lastStatus => trivial

variable {table : JobTable}
variable {children : List Int}

theorem afterStart_faithful
    (hTable : table.Consistent children)
    (job : Option JobRef)
    (op : WaitOp) :
    PhaseFaithful table
      (afterJob job op (table.waitStart job op)) := by
  cases hStep : table.waitStart job op with
  | finished status =>
      cases job with
      | none => trivial
      | some job =>
          refine resultFaithful_of_finished ?_
          intro object hObject
          simp only [JobTable.waitStart, Option.bind_some,
            hObject] at hStep
          exact
            JobObject.waitStart_finished
              (hTable.controlled job object hObject).2 hStep
  | waiting lastStatus =>
      cases job with
      | none => trivial
      | some job =>
          intro object hObject
          simp only [JobTable.waitStart, Option.bind_some,
            hObject] at hStep
          exact JobObject.waitStart_waiting hStep

theorem afterReport_faithful
    (hTable : table.Consistent children)
    {phase : Phase}
    (hPhase : PhaseFaithful table phase)
    (found : Option (JobRef × Nat)) :
    PhaseFaithful table (afterReport table found phase) := by
  cases phase with
  | waitForJob job op lastStatus =>
      cases job with
      | none => trivial
      | some job =>
          simp only [afterReport]
          cases hStep :
              table.waitReport (some job) op lastStatus found with
          | finished status =>
              refine resultFaithful_of_finished ?_
              intro object hObject
              simp only [JobTable.waitReport, hObject] at hStep
              exact
                JobObject.waitReport_finished
                  (hTable.controlled job object hObject).2
                  (hPhase object hObject) hStep
          | waiting lastStatus => exact hPhase
  | waitForAll job rest op waitOne lastStatus =>
      exact nextJob_faithful table table job rest op waitOne _
  | _ => exact hPhase

theorem afterNoReport_faithful
    {phase next : Phase}
    (hNext : afterNoReport table phase = some next) :
    PhaseFaithful table next := by
  unfold afterNoReport at hNext
  split at hNext
  · next job lastStatus =>
      cases hNext
      cases job with
      | none => trivial
      | some job => exact fun _ _ _ => trivial
  · cases hNext
    trivial
  · cases hNext
    exact nextJob_faithful _ _ _ _ _ _ _
  · cases hNext

theorem afterError_faithful
    {phase next : Phase}
    (hNext : afterError table phase = some next) :
    PhaseFaithful table next := by
  unfold afterError at hNext
  split at hNext
  · cases hNext
    exact resultFaithful_error table _
  · cases hNext
    trivial
  · cases hNext
    exact nextJob_faithful _ _ _ _ _ _ _
  · cases hNext

/- The wait goes on with the table that a report has changed. -/
theorem recorded_faithful
    (hTable : table.Consistent children)
    {next : JobTable}
    {ret : WaitResult}
    {job : JobRef}
    {offset index : Nat}
    {proc : Proc}
    {object : JobObject}
    (hRecorded :
      JobTable.Recorded table next ret job offset index proc object)
    {phase : Phase}
    (hWaits : phase.waits = true)
    (hPhase : PhaseFaithful table phase) :
    PhaseFaithful next phase := by
  cases phase with
  | waitForJob target op lastStatus =>
      cases target with
      | none => trivial
      | some target =>
          intro found hFound
          by_cases hSame : job = target
          · subst hSame
            exact (hRecorded.available hTable hFound).1
          · rw [hRecorded.heap_other hSame] at hFound
            exact hPhase found hFound
  | waitForAny => trivial
  | waitForAll job rest op waitOne lastStatus => trivial
  | idle => cases hWaits
  | spawned procs => cases hWaits
  | finishing call status => cases hWaits
  | returned call status => cases hWaits
  | aborted => cases hWaits

/- The result stays true when terminated jobs are removed. -/
theorem removal_faithful
    (hTable : table.Consistent children)
    {call : WaitCall}
    {status : Int}
    (hResult : ResultFaithful table call status) :
    ResultFaithful table.removeTerminatedJobs call status := by
  cases call with
  | waitForJob target op =>
      cases target with
      | none => trivial
      | some job =>
          intro object hObject hStatus
          rcases hTable.removal_heap.2.2.1 job object hObject with
            ⟨before, hBefore, hProcs, _⟩
          have hOld := hResult before hBefore hStatus
          cases op with
          | blocking =>
              simp only [JobObject.EndedWith, JobObject.ended,
                JobObject.exitStatus, hProcs] at hOld ⊢
              exact hOld
          | blockUntraced =>
              simp only [JobObject.EndedWith, JobObject.ended,
                JobObject.exitStatus, JobObject.Suspended,
                hProcs] at hOld ⊢
              exact hOld
          | nonblocking => trivial
  | waitForAny => trivial
  | waitForAll op waitOne => trivial

section

variable {shell next : Shell}

theorem report_faithful
    (hShell : shell.Consistent)
    (hPhase : PhaseFaithful shell.table shell.phase)
    {ret : WaitResult}
    (hStep : shell.report ret = some next) :
    PhaseFaithful next.table next.phase := by
  have hNext := hShell.report hStep
  rcases report_eq_some hStep with ⟨hWaits, hPos, hOutcome⟩
  rcases hOutcome with ⟨_, rfl⟩ | ⟨table, found, hUpdate, rfl⟩
  · trivial
  · refine afterReport_faithful hNext.table ?_ found
    rcases hShell.table.updateProcState_cases hPos with
      hHeld | ⟨_, hElse⟩
    · rcases hHeld with
        ⟨other, job, offset, index, proc, object, hSame, hRecorded⟩
      rw [hUpdate] at hSame
      cases hSame
      exact
        recorded_faithful hShell.table hRecorded hWaits hPhase
    · rcases hElse with ⟨_, _, _, hNone⟩ | ⟨_, kept, hKept⟩
      · rw [hUpdate] at hNone
        cases hNone
      · rw [hUpdate] at hKept
        cases hKept
        exact hPhase

theorem phaseFaithful_step
    (hShell : shell.Consistent)
    (hPhase : PhaseFaithful shell.table shell.phase)
    {event : ShellEvent}
    (hStep : shell.step event = some next) :
    PhaseFaithful next.table next.phase := by
  cases event with
  | fork pid =>
      simp only [Shell.step, Shell.fork] at hStep
      split at hStep
      · rcases Option.map_eq_some_iff.mp hStep with ⟨_, _, rfl⟩
        trivial
      · cases hStep
  | procWait offset status =>
      rcases procWait_eq_some hStep with ⟨_, _, _, _, _, rfl⟩
      trivial
  | attach disowned =>
      rcases hShell.attached hStep with ⟨_, _, _, _, _, hIdle⟩
      rw [hIdle]
      trivial
  | abandon | child =>
      rcases Option.map_eq_some_iff.mp hStep with ⟨_, _, rfl⟩
      trivial
  | detach job | waitForAny =>
      simp only [Shell.step] at hStep
      split at hStep
      · cases hStep
        trivial
      · cases hStep
  | waitForJob job op =>
      simp only [Shell.step] at hStep
      split at hStep
      · cases hStep
        exact afterStart_faithful hShell.table job op
      · cases hStep
  | waitForAll op waitOne =>
      simp only [Shell.step] at hStep
      split at hStep
      · cases hStep
        exact afterAll_faithful shell.table op waitOne _
      · cases hStep
  | report ret => exact report_faithful hShell hPhase hStep
  | noReport =>
      rcases Option.map_eq_some_iff.mp hStep with
        ⟨phase, hNext, rfl⟩
      exact afterNoReport_faithful hNext
  | waitError =>
      rcases Option.map_eq_some_iff.mp hStep with
        ⟨phase, hNext, rfl⟩
      exact afterError_faithful hNext
  | removeTerminatedJobs =>
      simp only [Shell.step] at hStep
      split at hStep
      · next call status hFinishing =>
          cases hStep
          rw [hFinishing] at hPhase
          exact removal_faithful hShell.table hPhase
      · cases hStep

end

----
-- Steps
----

/- A held process is the first one not below its own id. -/
theorem recorded_safe
    {table next : JobTable}
    (hTable : table.Consistent children)
    {ret : WaitResult}
    (hPos : 0 < ret.pid)
    {job : JobRef}
    {offset index : Nat}
    {proc : Proc}
    {object : JobObject}
    (hRecorded :
      JobTable.Recorded table next ret job offset index proc object)
    {entry : Entry}
    (hFirst : table.firstNotBelow ret.pid = some entry) :
    entry.isDeleted = false := by
  rcases hRecorded.entry with ⟨held, hGet, hLive, hPid⟩
  have hFind :=
    JobTable.procAt_findProc hTable.wellFormed hPos
      ⟨held, hGet, hLive, hPid⟩
  have hEntry := JobTable.findEntry_eq hTable.wellFormed hPos
  rw [JobTable.findEntry_of_findProc hFind, hGet] at hEntry
  rw [JobTable.firstNotBelow, ← hEntry] at hFirst
  cases hFirst
  exact hLive

theorem recorded_reportFaithful
    {table next : JobTable}
    (hTable : table.Consistent children)
    {ret : WaitResult}
    {job : JobRef}
    {offset index : Nat}
    {proc : Proc}
    {object : JobObject}
    (hRecorded :
      JobTable.Recorded table next ret job offset index proc object) :
    ReportFaithful table next ret where
  recorded := by
    intro other place found hHold hPid
    rcases hTable.holds_unique hRecorded.holds hHold
        (hRecorded.pid.trans hPid.symm) with ⟨rfl, rfl⟩
    have hFound := hHold.found
    rw [hRecorded.holds.found] at hFound
    cases hFound
    refine ⟨?_, fun other place hNe => ?_⟩
    · rw [hRecorded.procAt, if_pos ⟨rfl, rfl⟩]
    · rw [hRecorded.procAt, if_neg hNe]
  untouched := by
    intro hFree
    exact absurd hRecorded.pid (hFree _ _ _ hRecorded.holds)

section

variable {shell next : Shell}
variable {event : ShellEvent}

/- What an event does to the tables. -/
theorem table_of_step
    (hStep : shell.step event = some next) :
    match event with
    | .attach disowned => shell.attach disowned = some next
    | .child => next.table = shell.table.detachAll
    | .detach job =>
        next.table = shell.table.modifyJob job JobObject.disowned
    | .report ret => shell.report ret = some next
    | .removeTerminatedJobs =>
        next.table = shell.table.removeTerminatedJobs
    | _ => next.table = shell.table := by
  cases event with
  | fork pid =>
      simp only [Shell.step, Shell.fork] at hStep
      split at hStep
      · rcases Option.map_eq_some_iff.mp hStep with ⟨_, _, rfl⟩
        rfl
      · cases hStep
  | procWait place status =>
      rcases procWait_eq_some hStep with ⟨_, _, _, _, _, rfl⟩
      rfl
  | attach disowned => exact hStep
  | abandon | child | noReport | waitError =>
      rcases Option.map_eq_some_iff.mp hStep with ⟨_, _, rfl⟩
      rfl
  | detach target
  | waitForJob target op
  | waitForAny
  | waitForAll op waitOne
  | removeTerminatedJobs =>
      simp only [Shell.step] at hStep
      split at hStep
      · cases hStep
        rfl
      · cases hStep
  | report ret => exact hStep

/- What an event does to the phase. -/
theorem phase_of_step
    (hStep : shell.step event = some next) :
    match event with
    | .fork _ => ∃ procs, next.phase = .spawned procs
    | .procWait _ _ => ∃ procs, next.phase = .spawned procs
    | .attach _ => next.phase = .idle
    | .abandon => next.phase = .idle
    | .child => next.phase = .idle
    | .detach _ => next.phase = .idle
    | .report ret =>
        next.phase.busy = true ∨
          shell.table.updateProcState ret = none
    | .removeTerminatedJobs =>
        ∃ call status, next.phase = .returned call status
    | _ => next.phase.busy = true := by
  cases event with
  | fork pid =>
      simp only [Shell.step, Shell.fork] at hStep
      split at hStep
      · rcases Option.map_eq_some_iff.mp hStep with ⟨_, _, rfl⟩
        exact ⟨_, rfl⟩
      · cases hStep
  | procWait place status =>
      rcases procWait_eq_some hStep with ⟨_, _, _, _, _, rfl⟩
      exact ⟨_, rfl⟩
  | attach disowned =>
      simp only [Shell.step, Shell.attach] at hStep
      split at hStep
      · split at hStep
        · cases hStep
        · rcases Option.map_eq_some_iff.mp hStep with ⟨_, _, rfl⟩
          rfl
      · cases hStep
  | abandon | child =>
      rcases Option.map_eq_some_iff.mp hStep with ⟨_, _, rfl⟩
      rfl
  | detach target | waitForAny =>
      simp only [Shell.step] at hStep
      split at hStep
      · cases hStep
        rfl
      · cases hStep
  | waitForJob target op =>
      simp only [Shell.step] at hStep
      split at hStep
      · cases hStep
        exact afterJob_busy target op _
      · cases hStep
  | waitForAll op waitOne =>
      simp only [Shell.step] at hStep
      split at hStep
      · cases hStep
        exact afterAll_busy op waitOne _
      · cases hStep
  | report ret =>
      rcases report_eq_some hStep with ⟨hWaits, _, hOutcome⟩
      rcases hOutcome with ⟨hNone, _⟩ | ⟨table, found, _, rfl⟩
      · exact Or.inr hNone
      · exact Or.inl (afterReport_busy hWaits)
  | noReport =>
      rcases Option.map_eq_some_iff.mp hStep with ⟨_, hNext, rfl⟩
      exact afterNoReport_busy hNext
  | waitError =>
      rcases Option.map_eq_some_iff.mp hStep with ⟨_, hNext, rfl⟩
      exact afterError_busy hNext
  | removeTerminatedJobs =>
      simp only [Shell.step] at hStep
      split at hStep
      · cases hStep
        exact ⟨_, _, rfl⟩
      · cases hStep

/- A report belongs to an attached process, fails, or is lost. -/
theorem report_cases
    (hShell : shell.Consistent)
    {ret : WaitResult}
    (hStep : shell.report ret = some next) :
    (∃ job offset index proc object,
        JobTable.Recorded shell.table next.table ret job offset
          index proc object) ∨
      ((∀ job offset proc,
          shell.table.Holds job offset proc →
          proc.pid ≠ ret.pid) ∧
        next.table = shell.table) := by
  rcases report_eq_some hStep with ⟨_, hPos, hOutcome⟩
  rcases hShell.table.updateProcState_cases hPos with
    hHeld | ⟨hFree, hElse⟩
  · rcases hHeld with
      ⟨other, job, offset, index, proc, object, hSame, hRecorded⟩
    rcases hOutcome with ⟨hNone, _⟩ | ⟨table, found, hUpdate, rfl⟩
    · rw [hSame] at hNone
      cases hNone
    · rw [hUpdate] at hSame
      cases hSame
      exact Or.inl ⟨job, offset, index, proc, object, hRecorded⟩
  · refine Or.inr ⟨hFree, ?_⟩
    rcases hOutcome with ⟨_, rfl⟩ | ⟨table, found, hUpdate, rfl⟩
    · rfl
    · rcases hElse with ⟨_, _, _, hNone⟩ | ⟨_, kept, hKept⟩
      · rw [hUpdate] at hNone
        cases hNone
      · rw [hUpdate] at hKept
        cases hKept
        rfl

/- A process that has ended never changes again. -/
theorem terminated_of_step
    (hShell : shell.Consistent)
    (hStep : shell.step event = some next)
    {job : JobRef}
    {offset : Nat}
    {proc : Proc}
    (hProc : shell.table.procAt job offset = some proc)
    (hEnded : proc.isTerminated = true) :
    next.table.procAt job offset = some proc := by
  have hTable := table_of_step hStep
  cases event with
  | attach disowned =>
      rcases hShell.attached hTable with ⟨_, _, _, hAttached, _⟩
      rcases Option.bind_eq_some_iff.mp hProc with
        ⟨object, hObject, hFound⟩
      rw [JobTable.procAt_of_heap
        (hAttached.heap job object hObject)]
      exact hFound
  | child =>
      rw [hTable, JobTable.detachAll_procAt]
      exact hProc
  | detach target =>
      rw [hTable, JobTable.disowned_procAt]
      exact hProc
  | report ret =>
      rcases report_cases hShell hTable with
        ⟨other, place, index, found, object, hRecorded⟩ | ⟨_, hSame⟩
      · rw [hRecorded.procAt, if_neg]
        · exact hProc
        · rintro ⟨rfl, rfl⟩
          have hHeld := hRecorded.holds
          rw [hHeld.found] at hProc
          cases hProc
          rw [hHeld.live] at hEnded
          cases hEnded
      · rw [hSame]
        exact hProc
  | removeTerminatedJobs =>
      rw [hTable, hShell.table.removal_heap.2.2.2]
      exact hProc
  | _ =>
      rw [hTable]
      exact hProc

theorem jobs_of_step
    (hShell : shell.Consistent)
    (hStep : shell.step event = some next)
    (hEvent : event.changesJobs = false) :
    next.table.jobs = shell.table.jobs := by
  have hTable := table_of_step hStep
  cases event with
  | attach disowned => cases hEvent
  | child => cases hEvent
  | removeTerminatedJobs => cases hEvent
  | detach target =>
      rw [hTable]
      rfl
  | report ret =>
      rcases report_cases hShell hTable with
        ⟨job, offset, index, proc, object, hRecorded⟩ | ⟨_, hSame⟩
      · exact hRecorded.jobs
      · rw [hSame]
  | _ => rw [hTable]

/- A call returns only by the removal of terminated jobs. -/
theorem returned_of_step
    (hStep : shell.step event = some next)
    {call : WaitCall}
    {status : Int}
    (hReturned : next.phase = .returned call status) :
    event = .removeTerminatedJobs := by
  have hPhase := phase_of_step hStep
  cases event with
  | removeTerminatedJobs => rfl
  | report ret =>
      rcases report_eq_some hStep with ⟨hWaits, _, hOutcome⟩
      rcases hOutcome with ⟨_, rfl⟩ | ⟨table, found, _, rfl⟩
      · cases hReturned
      · have hBusy : (afterReport table found shell.phase).busy =
            true :=
          afterReport_busy hWaits
        rw [show afterReport table found shell.phase =
          .returned call status from hReturned] at hBusy
        cases hBusy
  | _ => simp [hReturned, Phase.busy, Phase.waits] at hPhase

/- A step aborts the shell only if it is an unsafe report. -/
theorem not_aborted_of_step
    (hShell : shell.Consistent)
    (hSafe : ReportSafe shell event)
    (hStep : shell.step event = some next) :
    next.phase ≠ .aborted := by
  intro hAborted
  have hPhase := phase_of_step hStep
  cases event with
  | report ret =>
      rcases hPhase with hBusy | hNone
      · rw [hAborted] at hBusy
        cases hBusy
      · have hPos := (report_eq_some hStep).2.1
        rcases hShell.table.updateProcState_cases hPos with
          hHeld | ⟨_, hElse⟩
        · rcases hHeld with ⟨_, _, _, _, _, _, hSome, _⟩
          rw [hNone] at hSome
          cases hSome
        · rcases hElse with ⟨entry, hFirst, hDead, _⟩ | ⟨_, _, hSome⟩
          · rw [hSafe entry hFirst] at hDead
            cases hDead
          · rw [hNone] at hSome
            cases hSome
  | _ => simp [hAborted, Phase.busy, Phase.waits] at hPhase

end

end Shell

----
-- Main Results
----

/- Along runs the tables agree and the phases tell the truth. -/
theorem phaseFaithful_of_run
    {inherited : List Int}
    {events : List ShellEvent}
    {shell : Shell}
    (hRun :
      exec Shell.step (Shell.start inherited) events =
        some shell) :
    shell.Consistent ∧
      PhaseFaithful shell.table shell.phase := by
  have hInit :
      PhaseFaithful (Shell.start inherited).table
        (Shell.start inherited).phase := trivial
  exact
    exec_invariant
      (I := fun shell =>
        shell.Consistent ∧ PhaseFaithful shell.table shell.phase)
      (fun _ _ _ hShell hStep =>
        ⟨hShell.1.step hStep,
          Shell.phaseFaithful_step hShell.1 hShell.2 hStep⟩)
      hRun ⟨Shell.Consistent.start inherited, hInit⟩

/-
  After a run whose reports were safe, a step is faithful
  exactly if it is no unsafe report.
-/
theorem waitFaithful_iff
    {inherited : List Int}
    {events : List ShellEvent}
    {shell next : Shell}
    {event : ShellEvent}
    (hRun :
      GuardedRun Shell.step ReportSafe (Shell.start inherited)
        events shell)
    (hStep : shell.step event = some next) :
    WaitFaithful shell event next ↔ ReportSafe shell event := by
  rcases phaseFaithful_of_run hRun.exec_eq with ⟨hShell, hPhase⟩
  have hNext := Shell.phaseFaithful_step hShell hPhase hStep
  constructor
  · intro hFaithful
    cases event with
    | report ret =>
        intro entry hFirst
        rcases Shell.report_eq_some hStep with ⟨_, hPos, hOutcome⟩
        rcases hShell.table.updateProcState_cases hPos with
          hHeld | ⟨_, hElse⟩
        · rcases hHeld with ⟨_, _, _, _, _, _, _, hRecorded⟩
          exact
            Shell.recorded_safe hShell.table hPos hRecorded hFirst
        · rcases hElse with ⟨_, _, _, hNone⟩ | ⟨hSafe, _⟩
          · rcases hOutcome with ⟨_, rfl⟩ | ⟨_, _, hUpdate, _⟩
            · exact absurd rfl hFaithful.completes
            · rw [hNone] at hUpdate
              cases hUpdate
          · exact hSafe entry hFirst
    | _ => trivial
  · intro hSafe
    refine
      { completes := ?_
        reports := ?_
        terminated := fun _ _ _ hProc hEnded =>
          Shell.terminated_of_step hShell hStep hProc hEnded
        results := ?_
        stays := Shell.jobs_of_step hShell hStep
        leaves := ?_ }
    · exact Shell.not_aborted_of_step hShell hSafe hStep
    · rintro ret rfl
      rcases Shell.report_cases hShell hStep with
        ⟨job, offset, index, proc, object, hRecorded⟩ |
          ⟨hFree, hSame⟩
      · exact Shell.recorded_reportFaithful hShell.table hRecorded
      · constructor
        · intro job offset proc hHold hPid
          exact absurd hPid (hFree job offset proc hHold)
        · intro _
          rw [hSame]
          exact ⟨rfl, fun _ _ => rfl⟩
    · intro call status hReturned
      rw [hReturned] at hNext
      exact hNext
    · intro call status hReturned
      cases Shell.returned_of_step hStep hReturned
      have hTable := Shell.table_of_step hStep
      rw [hTable]
      exact hShell.table.removesTerminated.jobs

/- A shell that waits while its only job runs, or has ended. -/
def oneJob
    (object : JobObject)
    (procTable : ProcTable)
    (children : List Int) : Shell :=
  { table :=
      { heap := [object]
        jobs := [0]
        procTable
        latest := some 0 }
    children
    phase := .waitForAny }

def runningJob : Shell :=
  oneJob
    { jobID := 1
      state := .running
      disown := false
      procs := [Proc.ofPid 34] }
    { entries := [{ pid := 34, jobId := 1, procOffset := 0 }]
      deletedCount := 0 }
    [34]

def endedJob : Shell :=
  oneJob
    { jobID := 1
      state := .terminated
      disown := false
      procs := [{ pid := -1, state := .terminated, exitStatus := 0 }] }
    { entries := [{ pid := 34, jobId := 0, procOffset := 0 }]
      deletedCount := 1 }
    []

theorem waitFaithful_runningJob :
    WaitFaithful runningJob
        (.report { pid := 34, status := .exited 0 }) endedJob ↔
      ReportSafe runningJob
        (.report { pid := 34, status := .exited 0 }) := by
  have hRun :
      GuardedRun Shell.step ReportSafe (Shell.start [])
        [.fork 34, .attach false, .waitForAny] runningJob := by
    have hAttach :
        Shell.step
            { Shell.start [] with
              children := [34]
              phase := .spawned [Proc.ofPid 34] }
            (.attach false) =
          some { runningJob with phase := .idle } := by
      decide +kernel
    exact
      .cons trivial rfl
        (.cons trivial hAttach (.cons trivial rfl (.nil _)))
  exact waitFaithful_iff hRun (by decide +kernel)

/-
  A pipeline fails to start after its first process, number 20,
  has been forked.  The process is killed and stays a child of
  the shell.  It is reported after job 34 has ended.
-/
def lostProcess : List ShellEvent :=
  [.fork 20, .abandon, .fork 34, .attach false, .waitForAny,
    .report { pid := 34, status := .exited 0 },
    .report { pid := 20, status := .signaled 9 }]

theorem not_waitFaithful_lostProcess :
    ¬ ∀ (inherited : List Int)
        (events : List ShellEvent)
        (shell next : Shell)
        (event : ShellEvent),
        exec Shell.step (Shell.start inherited) events =
          some shell →
        shell.step event = some next →
        WaitFaithful shell event next := by
  intro hAll
  have hAborted :
      (exec Shell.step (Shell.start []) lostProcess.dropLast).bind
          (fun shell =>
            (shell.step
                (.report { pid := 20, status := .signaled 9 })).map
              Shell.phase) =
        some .aborted := by
    decide +kernel
  rcases Option.bind_eq_some_iff.mp hAborted with
    ⟨shell, hRun, hLast⟩
  rcases Option.map_eq_some_iff.mp hLast with
    ⟨next, hStep, hPhase⟩
  exact (hAll _ _ shell next _ hRun hStep).completes hPhase

end Job

end Ydsh
