import Flowlite.Services.AttemptMonitor

/-!
# The services around the orchestrator

The scheduler, which submits the occurrences of each schedule; retention, which
deletes finished runs; and the notification service, which reports their ends.
-/

namespace Flowlite

open Store Host Threads Crud

namespace Scheduler

/-- Every status whose presence means an occurrence is spoken for. -/
def occupyingStatuses : List JobRunStatus :=
  [.scheduled, .queued, .running, .succeeded, .failed, .skipped, .aborted, .timedOut, .invalid]

/-- Submits one (job, occurrence) pair unless a run for it is already there. A
submission that fails is reported and stepped over. -/
def submitIfMissing (config : Config) (schedule : Schedule) (scheduleJob : ScheduleJob)
    (occurrence : Instant) : Code Unit := do
  let existing ← selectJobRun
    { jobId := some scheduleJob.jobId, statuses := some occupyingStatuses
      scheduleId := some schedule.scheduleId, scheduledAt := some occurrence }
  if existing.isSome then
    return ()
  else
    let _ ← (submitJob config scheduleJob.jobId scheduleJob.parameters occurrence
      (some schedule.scheduleId) none).attempt

/-- Submits whichever of this schedule's desired occurrences has no run yet. -/
def reconcileSchedule (lib : Library) (config : Config) (schedule : Schedule) : Code Unit := do
  let now ← now
  let desired := lib.getNextRuns schedule now schedule.submitAhead
  let scheduleJobs ← selectScheduleJobs config schedule.scheduleId
  Prog.forEach desired fun occurrence =>
    Prog.forEach scheduleJobs fun scheduleJob =>
      submitIfMissing config schedule scheduleJob occurrence

def poller (lib : Library) (config : Config) : Poller where
  Row := Schedule
  select := selectSchedules config
  handle := reconcileSchedule lib config

end Scheduler

namespace Retention

/-- Matches every finished run of a job, or of every job. -/
def finishedJobRunsFilter (jobId : Option String) : SelectJobRunsFilter :=
  { jobId, statuses := some
      [.succeeded, .failed, .skipped, .aborted, .timedOut, .invalid, .deleted] }

/-- How many runs have finished: the database counts in 64 bits, and the count is cast
to 32. -/
def countFinishedJobRuns : Code Nat := do
  let count ← countJobRuns (finishedJobRunsFilter none)
  return count % 2 ^ 32

def selectJobIdsWithFinishedJobRuns : Code (List String) :=
  selectJobRunJobIds (finishedJobRunsFilter none)

inductive DeletableSort
  | newestFirst
  | oldestFirst

/-- Finished runs, oldest first, minus any that still owe a notification. `sort`
chooses which end of the list `offset` protects. -/
def selectDeletableJobRuns (jobId : Option String) (sort : DeletableSort)
    (offset limit : Option Nat) : Code (List Nat) := do
  let filter := finishedJobRunsFilter jobId
  let (offset, limit) ← (match sort with
    | .newestFirst => do
        let matched ← countJobRuns filter
        let unprotected : Int := max ((matched : Int) - (offset.getD 0 : Nat)) 0
        return (none, some (match limit with
          | none => unprotected
          | some limit => min (limit : Int) unprotected))
    | .oldestFirst => return (offset.map Int.ofNat, limit.map Int.ofNat) :
      Code (Option Int × Option Int))
  let runs ← selectJobRuns { filter, sort := some .id, limit, offset }
  let pending ← selectJobRunNotifications { status := some .pending }
  return (runs.map (·.id)).filter fun id => !(pending.any fun n => n.jobRunId = id)

/-- `0` means unbounded. A budget is a `u32`, and no more runs are selected than it
allows, so the cast of their number loses nothing. -/
def remainingBudget (budget selectedSoFar : Nat) : Option Nat :=
  if budget = 0 then none else some (budget - selectedSoFar)

/-- Every finished run of the given jobs past its job's own `keep_runs`. -/
def selectPerJobCandidates (config : Config) (ids : List Nat) :
    List String → Code (List Nat)
  | [] => return ids
  | jobId :: rest => do
      let job ← selectJob config jobId
      let keepRuns := match job with
        | some job => job.keepRuns
        | none => config.app.keepRuns
      if keepRuns = 0 then
        selectPerJobCandidates config ids rest
      else
        let candidates ← selectDeletableJobRuns (some jobId) .newestFirst (some keepRuns)
          (remainingBudget config.app.maxDeletesPerPass ids.length)
        selectPerJobCandidates config (ids ++ candidates) rest

/-- Every finished run past the global ceiling, oldest first, minus whatever the
per-job pass already collected. -/
def selectGlobalOverflowCandidates (config : Config) (alreadySelected : List Nat) :
    Code (List Nat) := do
  if config.app.keepRunsTotal = 0 then
    return []
  else
    let finished ← countFinishedJobRuns
    let overflow := finished - config.app.keepRunsTotal
    if overflow = 0 then
      return []
    else
      let limit := match remainingBudget config.app.maxDeletesPerPass alreadySelected.length with
        | none => overflow
        | some remaining => min overflow remaining
      let candidates ← selectDeletableJobRuns none .oldestFirst none (some limit)
      return candidates.filter fun id => !alreadySelected.contains id

def selectRows (config : Config) : Code (List Nat) := do
  let jobIds ← selectJobIdsWithFinishedJobRuns
  let perJobIds ← selectPerJobCandidates config [] jobIds
  let globalIds ← selectGlobalOverflowCandidates config perJobIds
  return perJobIds ++ globalIds

/-- `remove_job_run_dir`. -/
def removeJobRunDir (config : Config) (jobRunId : Nat) : Code Unit := do
  let dir ← jobRunDir config jobRunId
  let isThere ← perform (.pathExists dir)
  if isThere then
    perform (.removeDirAll dir)
  else
    return ()

/-- Deletes a run with its descendants, once every one of them has finished. -/
def handle (config : Config) (fuel : Nat) (jobRunId : Nat) : Code Unit := do
  let descendants ← selectJobRunDescendants fuel [jobRunId] []
  if descendants.any fun d => !d.status.isFinished then
    return ()
  else
    let deleted ← write (.deleteJobRunsWithChildren { id := some jobRunId })
    Prog.forEach deleted fun id => do
      let _ ← (removeJobRunDir config id).attempt

def poller (config : Config) (fuel : Nat) : Poller where
  Row := Nat
  select := selectRows config
  handle := handle config fuel

end Retention

namespace Notifications

/-- Whether a run that ended this way is what the notification was written for. -/
def wants : NotifyOn → JobRunStatus → Bool
  | .failure, .failed | .failure, .timedOut | .failure, .invalid => true
  | .success, .succeeded => true
  | _, _ => false

/-- A failed task run with its last attempt and what that attempt printed. -/
def getFailure (taskRun : TaskRun) :
    Code (TaskRun × Option TaskRunAttempt × List TaskRunAttemptOutput) := do
  let attempts ← selectTaskRunAttempts { taskRunId := some taskRun.id } (some .id)
  match attempts.getLast? with
  | none => return (taskRun, none, [])
  | some attempt =>
      let output ← selectTaskRunAttemptOutputs { taskRunAttemptId := some attempt.id }
      return (taskRun, some attempt, output)

def record (notification : JobRunNotification) (input : UpdateJobRunNotificationsInput) :
    Code Unit :=
  updateJobRunNotification notification.id input

/-- Closes a notification nobody needs, delivers one somebody does, and leaves
one whose run is not over. -/
def handleOpenNotification (notification : JobRunNotification) : Code Unit := do
  let jobRun ← getJobRun notification.jobRunId
  if !jobRun.status.isFinished then
    return ()
  else if !wants notification.notifyOn jobRun.status then
    record notification { status := some .skipped }
  else
    let taskRuns ← selectTaskRuns { jobRunId := some jobRun.id }
    let failures ← Prog.collect
      (taskRuns.filter fun t => t.status = .failed || t.status = .timedOut) getFailure
    match ← (perform (.sendNotification notification notification.channel
        notification.recipients { jobRun, taskRuns, failures })).attempt with
    | .error error =>
        record notification { status := some .failed, error := some error.text }
        Prog.throw error
    | .ok _ =>
        let now ← now
        record notification { status := some .sent, sentAt := some (some now) }

def poller : Poller where
  Row := JobRunNotification
  select := selectJobRunNotifications { status := some .pending }
  handle := handleOpenNotification

end Notifications

end Flowlite
