import Flowlite.Crud.Submission

/-!
# Operations on existing runs

The other multistatements: the pairs of writes that end a run nobody started,
the stop of an attempt's child runs, the limits the dispatchers count against,
and what the frontends do to a run.
-/

namespace Flowlite.Crud

open Store Host Threads

/-- Ends a run nobody ever started, and every task run it owns: the task runs
first, keyed on the job run alone. -/
def settleUnstarted (taskRunStatus : TaskRunStatus) (jobRunStatus : JobRunStatus)
    (jobRunId : Nat) : Code Unit := do
  let now ← now
  updateTaskRuns { jobRunId := some jobRunId }
    { status := some taskRunStatus, finishedAt := some (some now) }
  updateJobRuns { id := some jobRunId }
    { status := some jobRunStatus, finishedAt := some (some now) }

/-- `skip_job_run`. -/
def skipJobRun (jobRunId : Nat) : Code Unit := settleUnstarted .skipped .skipped jobRunId

/-- `invalidate_job_run`. -/
def invalidateJobRun (jobRunId : Nat) : Code Unit := settleUnstarted .invalid .invalid jobRunId

/-- Inserts a stop row for every unfinished run this attempt submitted that has
none yet. -/
def stopChildJobRuns (attempt : TaskRunAttempt) : Code Unit := do
  let children ← selectJobRuns
    { filter := { parentJobRunId := some attempt.jobRunId }, sort := some .id }
  -- the filter matches every attempt of the run, and a retry's children are its own
  let unfinishedChildren := children.filter fun child =>
    child.parentTaskRunAttemptId = some attempt.id && !child.status.isFinished
  Prog.forEach unfinishedChildren fun child => do
    let stop ← selectJobRunStop child.id
    if stop.isSome then
      return ()
    else
      let _ ← insertJobRunStop child.id

/-! ## Limits -/

/-- Whether the job already has as many runs in flight as it allows. -/
def isJobAtMaxParallelRuns (config : Config) (jobId : String) : Code Bool := do
  match ← selectJob config jobId with
  | none => return false
  | some job =>
      if job.maxParallelRuns = 0 then
        return false
      else
        let runningJobRuns ← selectJobRuns
          { filter := { jobId := some jobId, status := some .running } }
        return runningJobRuns.length ≥ job.maxParallelRuns

/-- The one set the attempt tallies below all start from. -/
def selectRunningAttempts : Code (List TaskRunAttempt) :=
  selectTaskRunAttempts { status := some .running } none

/-- Running attempts that hold a slot: one asleep in flowlite's own wait does not. -/
def countRunningAttempts : Code Nat := do
  let runningAttempts ← selectRunningAttempts
  return (runningAttempts.filter fun a => a.waitingSince.isNone).length

/-- How many running attempts claim each named limit. -/
def claimedLimitSlots : Code (BTreeMap String Nat) := do
  let runningAttempts ← selectRunningAttempts
  let claims ← Prog.collect (runningAttempts.filter fun a => a.waitingSince.isNone) fun a => do
    let taskRun ← orBail s!"Task run not found: {a.taskRunId}"
      (← selectTaskRun { id := some a.taskRunId })
    return taskRun.limits
  return claims.flatten.foldl
    (fun slots limit => BTreeMap.insert slots limit ((slots.get limit).getD 0 + 1)) []

/-! ## Descendants -/

/-- `select_job_run_descendants` on a plain connection: one statement per run.
`fuel` bounds the runs it looks below; a run is looked below once. -/
def selectJobRunDescendants (fuel : Nat) (parentIds : List Nat) (found : List JobRun) :
    Code (List JobRun) :=
  match fuel, parentIds with
  | _, [] => return found
  | 0, _ :: _ => bail "the run has more descendants than were looked for"
  | fuel + 1, parentId :: rest => do
      let children ← selectJobRuns
        { filter := { parentJobRunId := some parentId }, sort := some .id }
      selectJobRunDescendants fuel ((children.map (·.id)).reverse ++ rest) (found ++ children)

/-! ## What the frontends do to a run -/

/-- The word a status is shown as. -/
def jobRunWord : JobRunStatus → String
  | .scheduled => "scheduled"
  | .queued => "queued"
  | .running => "running"
  | .succeeded => "succeeded"
  | .failed => "failed"
  | .skipped => "skipped"
  | .aborted => "aborted"
  | .timedOut => "timed out"
  | .invalid => "invalid"
  | .deleted => "deleted"

/-- Whether the run's own snapshot is still the user's to replay. -/
def isRerunnable : JobRunStatus → Bool
  | .deleted => false
  | .scheduled | .queued | .running | .succeeded | .failed | .skipped | .aborted | .timedOut
  | .invalid => true

/-- `select_job_run` of the frontends. -/
def getJobRun (jobRunId : Nat) : Code JobRun := do
  orBail s!"Job run {jobRunId} not found" (← selectJobRun { id := some jobRunId })

/-- Asks for a run to be stopped by writing the row the orchestrator reads. A
settled run is refused. -/
def stopJobRun (jobRunId : Nat) : Code Unit := do
  let jobRun ← getJobRun jobRunId
  if jobRun.status.isFinished then
    bail s!"Job run {jobRunId} has already {jobRunWord jobRun.status}"
  else
    let _ ← insertJobRunStop jobRunId

/-- Removes a run that has not run yet. -/
def deleteJobRun (jobRunId : Nat) : Code JobRun := do
  let jobRun ← getJobRun jobRunId
  if jobRun.status ≠ .scheduled then
    let remedy :=
      if jobRun.status.isFinished then ""
      else " One already under way has to be stopped instead."
    bail (s!"Job run {jobRunId} is {jobRunWord jobRun.status} and can no longer be deleted. " ++
      s!"Only a run still waiting for its time can be.{remedy}")
  else
    let now ← now
    let deleted ← write (.deleteJobRun jobRunId now)
    if deleted then
      getJobRun jobRunId
    else
      bail s!"Job run {jobRunId} came due while it was being deleted, and was left alone"

/-- Replays the definition an earlier run executed, unless that run was deleted. -/
def rerunJobRun (jobRunId : Nat) (parentTaskRunAttemptId : Option Nat) : Code Nat := do
  let jobRun ← getJobRun jobRunId
  if isRerunnable jobRun.status then
    rerunJob jobRunId parentTaskRunAttemptId
  else
    let now ← now
    let scheduleWritesItAgain :=
      if jobRun.scheduleId.isSome && jobRun.scheduledAt > now then
        "Its schedule submits the occurrence again on its next pass; "
      else ""
    bail (s!"Job run {jobRunId} is {jobRunWord jobRun.status} and cannot be rerun. " ++
      s!"{scheduleWritesItAgain}`flowlite job submit {jobRun.jobId}` is what runs it now.")

/-- One stamp of `wait_for_job_run`; only a running attempt is written. -/
def setWaitingSince (taskRunAttemptId : Nat) (waitingSince : Option Instant) : Code Unit := do
  let _ ← (updateTaskRunAttempts { id := some taskRunAttemptId, status := some .running }
    { waitingSince := some waitingSince }).attempt

end Flowlite.Crud
