import Flowlite.Services.JobRuns

/-!
# The services that move task runs

`TaskRunDispatcher` starts a task run once everything it depends on has
succeeded, or skips it. `TaskRunMonitor` gives a running task run its attempts
and settles it as the last of them settles.
-/

namespace Flowlite

open Store Host Threads Crud

namespace TaskRunDispatcher

/-- Each dependency's task run of the same job run, one query each. -/
def getDependentTaskRuns (taskRun : TaskRun) : Code (List TaskRun) :=
  Prog.collect taskRun.dependsOn fun dependentTaskId => do
    orBail s!"Task run not found for task_id: {dependentTaskId}, job_run_id: {taskRun.jobRunId}"
      (← selectTaskRun { jobRunId := some taskRun.jobRunId, jobId := some taskRun.jobId
                         taskId := some dependentTaskId })

/-- A dependency that settled without succeeding. -/
def isUnsuccessful : TaskRunStatus → Bool
  | .failed | .skipped | .aborted | .timedOut | .invalid => true
  | .planned | .waiting | .running | .succeeded => false

def shouldSkip (taskRun : TaskRun) (dependentTaskRuns : List TaskRun) : Code Bool := do
  let isStopped ← isJobRunStopped taskRun.jobRunId
  return isStopped || dependentTaskRuns.any fun t => isUnsuccessful t.status

def isStillWaiting (dependentTaskRuns : List TaskRun) : Bool :=
  dependentTaskRuns.any fun t => !t.status.isFinished

def allDependenciesSucceeded (dependentTaskRuns : List TaskRun) : Bool :=
  dependentTaskRuns.all fun t => t.status = .succeeded

/-- Skipped, still waiting or running, as its dependencies stand. -/
def deriveNextStatus (taskRun : TaskRun) : Code (Option TaskRunStatus) := do
  let dependentTaskRuns ← getDependentTaskRuns taskRun
  let mustSkip ← shouldSkip taskRun dependentTaskRuns
  return if mustSkip then some .skipped
    else if isStillWaiting dependentTaskRuns then some .waiting
    else if allDependenciesSucceeded dependentTaskRuns then some .running
    else none

/-- `set_to_invalid` and `set_to_skipped`. -/
def settle (taskRun : TaskRun) (status : TaskRunStatus) : Code Unit := do
  let now ← now
  updateTaskRuns { id := some taskRun.id }
    { status := some status, finishedAt := some (some now) }

def setToInvalid (taskRun : TaskRun) : Code Unit := settle taskRun .invalid

def setToSkipped (taskRun : TaskRun) : Code Unit := settle taskRun .skipped

def setToRunning (taskRun : TaskRun) : Code Unit := do
  let now ← now
  updateTaskRuns { id := some taskRun.id }
    { status := some .running, startedAt := some (some now) }

def handleWaitingTaskRun (taskRun : TaskRun) : Code Unit := do
  match ← deriveNextStatus taskRun with
  | some .skipped => setToSkipped taskRun
  | some .waiting => return ()
  | some .running => setToRunning taskRun
  | _ => setToInvalid taskRun

def getWaitingTaskRuns : Code (List TaskRun) := selectTaskRuns { status := some .waiting }

def poller : Poller where
  Row := TaskRun
  select := getWaitingTaskRuns
  handle := handleWaitingTaskRun

end TaskRunDispatcher

namespace TaskRunMonitor

def selectLastTaskRunAttempt (taskRun : TaskRun) : Code (Option TaskRunAttempt) := do
  let taskRunAttempts ← selectTaskRunAttempts { taskRunId := some taskRun.id } (some .attempt)
  return taskRunAttempts.getLast?

/-- A queued attempt of a task run. -/
def attemptInput (taskRun : TaskRun) (attempt : Nat) : InsertTaskRunAttemptInput :=
  { taskRunId := taskRun.id, jobRunId := taskRun.jobRunId, jobId := taskRun.jobId
    taskId := taskRun.taskId, attempt, status := .queued }

def getOrStartTaskRunAttempt (taskRun : TaskRun) : Code TaskRunAttempt := do
  match ← selectLastTaskRunAttempt taskRun with
  | some lastTaskRunAttempt => return lastTaskRunAttempt
  | none =>
      let _ ← insertTaskRunAttempt (attemptInput taskRun 1)
      orBail s!"Task run {taskRun.id} still has no attempt after one was inserted for it"
        (← selectLastTaskRunAttempt taskRun)

/-- The sum of two `u32`s, as a release build adds them. -/
def addU32 (a b : Nat) : Nat := (a + b) % 2 ^ 32

def insertNextAttempt (taskRun : TaskRun) (lastTaskRunAttempt : TaskRunAttempt) :
    Code Unit := do
  let _ ← insertTaskRunAttempt (attemptInput taskRun (addU32 lastTaskRunAttempt.attempt 1))

/-- A running task run's next status, from its last attempt; a failed attempt
that may be retried gets its successor here. -/
def deriveNextStatus (taskRun : TaskRun) (lastTaskRunAttempt : TaskRunAttempt) :
    Code (Option TaskRunStatus) := do
  if lastTaskRunAttempt.status = .invalid then
    return some .invalid
  else if lastTaskRunAttempt.status = .succeeded then
    return some .succeeded
  else if !lastTaskRunAttempt.status.isFinished then
    return some .running
  else if lastTaskRunAttempt.status = .failed then
    if lastTaskRunAttempt.attempt < addU32 taskRun.maxRetries 1 then
      insertNextAttempt taskRun lastTaskRunAttempt
      return some .running
    else
      return some .failed
  else if lastTaskRunAttempt.status = .timedOut then
    return some .timedOut
  else if lastTaskRunAttempt.status.isStopped then
    return some .aborted
  else
    return none

def updateTaskRunStatus (taskRun : TaskRun) (status : TaskRunStatus) : Code Unit := do
  let now ← now
  updateTaskRuns { id := some taskRun.id }
    { status := some status, finishedAt := some (some now) }

def handleRunningTaskRun (taskRun : TaskRun) : Code Unit := do
  let lastTaskRunAttempt ← getOrStartTaskRunAttempt taskRun
  match ← deriveNextStatus taskRun lastTaskRunAttempt with
  | some .succeeded => updateTaskRunStatus taskRun .succeeded
  | some .failed => updateTaskRunStatus taskRun .failed
  | some .timedOut => updateTaskRunStatus taskRun .timedOut
  | some .aborted => updateTaskRunStatus taskRun .aborted
  | some .running => return ()
  | _ => updateTaskRunStatus taskRun .invalid

def getRunningTaskRuns : Code (List TaskRun) := selectTaskRuns { status := some .running }

def poller : Poller where
  Row := TaskRun
  select := getRunningTaskRuns
  handle := handleRunningTaskRun

end TaskRunMonitor

end Flowlite
