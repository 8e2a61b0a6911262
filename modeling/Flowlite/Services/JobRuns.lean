import Flowlite.Services.Poller

/-!
# The services that move job runs

`JobRunReleaser` takes a run out of Scheduled, `JobRunDispatcher` out of Queued
and `JobRunMonitor` out of Running. Each acts on rows it selected at the start
of its pass and writes by id.
-/

namespace Flowlite

open Store Host Threads Crud

/-- Whether a run has been asked to stop. -/
def isJobRunStopped (jobRunId : Nat) : Code Bool := do
  return (← selectJobRunStop jobRunId).isSome

namespace JobRunReleaser

/-- A stop outranks the clock; a run that is not due stays where it is. -/
def deriveNextStatus (jobRun : JobRun) : Code JobRunStatus := do
  let isStopped ← isJobRunStopped jobRun.id
  let now ← now
  return match isStopped, decide (jobRun.scheduledAt ≤ now) with
    | true, _ => .skipped
    | false, true => .queued
    | false, false => .scheduled

def setToSkipped (jobRun : JobRun) : Code Unit := skipJobRun jobRun.id

def setToQueued (jobRun : JobRun) : Code Unit :=
  updateJobRuns { id := some jobRun.id } { status := some .queued }

def setToInvalid (jobRun : JobRun) : Code Unit := invalidateJobRun jobRun.id

def handleScheduledJobRun (jobRun : JobRun) : Code Unit := do
  match ← deriveNextStatus jobRun with
  | .skipped => setToSkipped jobRun
  | .queued => setToQueued jobRun
  | .scheduled => return ()
  | _ => setToInvalid jobRun

def getScheduledJobRuns : Code (List JobRun) :=
  selectJobRuns { filter := { status := some .scheduled }, sort := some .id }

def poller : Poller where
  Row := JobRun
  select := getScheduledJobRuns
  handle := handleScheduledJobRun

end JobRunReleaser

/-- `job_run_dir`, below the canonical form of the data directory. -/
def jobRunDir (config : Config) (jobRunId : Nat) : Code String := do
  let canonicalDataDir ← perform (.canonicalize config.app.dataDir)
  return s!"{canonicalDataDir}/.flowlite/runs/{jobRunId}"

/-- `create_job_run_dir`, with the output directory inside it. -/
def createJobRunDir (config : Config) (jobRunId : Nat) : Code String := do
  let dir ← jobRunDir config jobRunId
  perform (.createDirAll dir)
  perform (.createDirAll s!"{dir}/.output")
  return dir

namespace JobRunDispatcher

/-- Skipped if stopped, queued while the job is at its parallel limit, else
running. -/
def deriveNextStatus (config : Config) (jobRun : JobRun) : Code JobRunStatus := do
  let isStopped ← isJobRunStopped jobRun.id
  if isStopped then
    return .skipped
  else
    let isAtMax ← isJobAtMaxParallelRuns config jobRun.jobId
    return if isAtMax then .queued else .running

def setToInvalid (jobRun : JobRun) : Code Unit := invalidateJobRun jobRun.id

def setToSkipped (jobRun : JobRun) : Code Unit := skipJobRun jobRun.id

/-- Its task runs first, so that no run is running with task runs nothing
dispatches. -/
def setToRunning (config : Config) (jobRun : JobRun) : Code Unit := do
  let _ ← createJobRunDir config jobRun.id
  updateTaskRuns { jobRunId := some jobRun.id, status := some .planned }
    { status := some .waiting }
  let now ← now
  updateJobRuns { id := some jobRun.id }
    { status := some .running, startedAt := some (some now) }

def handleQueuedJobRun (config : Config) (jobRun : JobRun) : Code Unit := do
  match ← deriveNextStatus config jobRun with
  | .skipped => setToSkipped jobRun
  | .queued => return ()
  | .running => setToRunning config jobRun
  | _ => setToInvalid jobRun

def getQueuedJobRuns : Code (List JobRun) :=
  selectJobRuns { filter := { status := some .queued }, sort := some .id }

def poller (config : Config) : Poller where
  Row := JobRun
  select := getQueuedJobRuns
  handle := handleQueuedJobRun config

end JobRunDispatcher

namespace JobRunMonitor

/-- A running run's next status, from its task runs; `none` where no rule
applies. -/
def deriveNextStatus (taskRuns : List TaskRun) : Option JobRunStatus :=
  if !taskRuns.all fun t => t.status.isFinished then some .running
  else if taskRuns.any fun t => t.status = .invalid then some .invalid
  else if taskRuns.all fun t => t.status = .succeeded then some .succeeded
  else if taskRuns.any fun t => t.status = .failed then some .failed
  else if taskRuns.any fun t => t.status = .timedOut then some .timedOut
  else if taskRuns.any fun t => t.status.isStopped then some .aborted
  else none

def updateJobRunStatus (jobRun : JobRun) (status : JobRunStatus) : Code Unit := do
  let now ← now
  updateJobRuns { id := some jobRun.id }
    { status := some status, finishedAt := some (some now) }

def handleRunningJobRun (jobRun : JobRun) : Code Unit := do
  let taskRuns ← selectTaskRuns { jobRunId := some jobRun.id }
  match deriveNextStatus taskRuns with
  | some .succeeded => updateJobRunStatus jobRun .succeeded
  | some .failed => updateJobRunStatus jobRun .failed
  | some .timedOut => updateJobRunStatus jobRun .timedOut
  | some .aborted => updateJobRunStatus jobRun .aborted
  | some .running => return ()
  | _ => updateJobRunStatus jobRun .invalid

def getRunningJobRuns : Code (List JobRun) :=
  selectJobRuns { filter := { status := some .running } }

def poller : Poller where
  Row := JobRun
  select := getRunningJobRuns
  handle := handleRunningJobRun

end JobRunMonitor

end Flowlite
