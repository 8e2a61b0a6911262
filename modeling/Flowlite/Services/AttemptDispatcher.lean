import Flowlite.Services.TaskRuns

/-!
# TaskRunAttemptDispatcher

Settles a queued attempt as skipped, leaves it queued, or spawns its command and
sets it to running. The command's environment and the files it is handed are
computed here too.
-/

namespace Flowlite

open Store Host Threads Crud

/-- What the code gets from its dependencies as plain functions. -/
structure Library where
  /-- `DateTime::to_rfc3339`. -/
  toRfc3339 : Instant → String
  /-- `CronTrigger::get_next_runs`: the occurrences of a schedule after an
  instant, as many as asked for at most. -/
  getNextRuns : Schedule → Instant → Nat → List Instant

/-! ## Files and environment of an attempt -/

/-- The file one attempt writes its result to. -/
def taskOutputPath (jobRunDir taskId : String) (attempt : Nat) : String :=
  s!"{jobRunDir}/.output/{taskId}.{attempt}"

/-- The log a retry is handed of the attempt before it. -/
def taskLogPath (jobRunDir taskId : String) (attempt : Nat) : String :=
  s!"{jobRunDir}/.output/{taskId}.{attempt}.log"

/-- What a retry is handed of the attempt before it. -/
structure PreviousAttemptFiles where
  log : String
  output : Option String

def parameterEnvName (name : String) : String := s!"FLOWLITE_PARAM_{name.toUpper}"

/-- The variable a task reads one dependency's result path from. -/
def taskInputEnvName (taskId : String) : String :=
  "FLOWLITE_INPUT_" ++ taskId.toUpper.map fun c => if c = '-' then '_' else c

/-- `env` with the value of every secret the task run names put in. -/
def resolveSecrets (taskRun : TaskRun) (secrets : BTreeMap String String) :
    BTreeMap String String → List (String × String) → Except Err (BTreeMap String String)
  | env, [] => .ok env
  | env, (name, secretName) :: rest =>
      match secrets.get secretName with
      | none => .error ⟨s!"Job '{taskRun.jobId}' task '{taskRun.taskId}' needs secret " ++
          s!"'{secretName}' for {name}, but nothing defines it. Add it under [secrets] in " ++
          s!"flowlite.toml, or set FLOWLITE_SECRETS__{secretName.toUpper}."⟩
      | some value => resolveSecrets taskRun secrets (BTreeMap.insert env name value) rest

/-- The variables one attempt's command runs with, over what is inherited minus
its `FLOWLITE_` names. The layers go in this order: the task's own, its secrets,
the run's parameters, the run's metadata. -/
def buildTaskRunAttemptEnv (lib : Library) (taskRun : TaskRun) (jobRun : JobRun)
    (attempt : TaskRunAttempt) (dataDir jobRunDir : String) (inputs : BTreeMap String String)
    (previousAttempt : Option PreviousAttemptFiles) (secrets : BTreeMap String String) :
    Except Err (BTreeMap String String) := do
  let env ← resolveSecrets taskRun secrets taskRun.env taskRun.secretEnv
  let env : BTreeMap String String := env.filter fun e => !e.1.startsWith "FLOWLITE_"
  let env := env.extend (jobRun.parameters.map fun e => (parameterEnvName e.1, e.2))
  let env := env.extend
    [("FLOWLITE_DATA_DIR", dataDir),
     ("FLOWLITE_JOB_ID", jobRun.jobId),
     ("FLOWLITE_JOB_RUN_ID", toString jobRun.id),
     ("FLOWLITE_TASK_ID", taskRun.taskId),
     ("FLOWLITE_TASK_RUN_ID", toString taskRun.id),
     ("FLOWLITE_TASK_RUN_ATTEMPT_ID", toString attempt.id),
     ("FLOWLITE_ATTEMPT", toString attempt.attempt),
     ("FLOWLITE_SCHEDULED_AT", lib.toRfc3339 jobRun.scheduledAt),
     ("FLOWLITE_TASK_OUTPUT", taskOutputPath jobRunDir taskRun.taskId attempt.attempt)]
  let env := env.extend (inputs.map fun e => (taskInputEnvName e.1, e.2))
  return match previousAttempt with
    | none => env
    | some previous =>
        let env := BTreeMap.insert env "FLOWLITE_PREVIOUS_ATTEMPT_LOG" previous.log
        match previous.output with
        | none => env
        | some output => BTreeMap.insert env "FLOWLITE_PREVIOUS_ATTEMPT_OUTPUT" output

namespace TaskRunAttemptDispatcher

def getTaskRun (attempt : TaskRunAttempt) : Code TaskRun := do
  orBail s!"Task run not found: {attempt.taskRunId}"
    (← selectTaskRun { id := some attempt.taskRunId })

def getJobRun (attempt : TaskRunAttempt) : Code JobRun := do
  orBail s!"Job run not found: {attempt.jobRunId}"
    (← selectJobRun { id := some attempt.jobRunId })

/-! ## Deciding -/

/-- Whether the limits of a task run hold a full one; a name that is not
configured is unlimited, and so is a maximum of `0`. -/
def someLimitIsFull (config : Config) (claimed : BTreeMap String Nat)
    (limits : List String) : Bool :=
  limits.any fun limit =>
    match config.app.concurrencyLimits.get limit with
    | none => false
    | some configuredMax =>
        configuredMax ≠ 0 && (claimed.get limit).getD 0 ≥ configuredMax

def aClaimedLimitIsFull (config : Config) (attempt : TaskRunAttempt) : Code Bool := do
  let taskRun ← getTaskRun attempt
  if taskRun.limits.isEmpty then
    return false
  else
    let claimed ← claimedLimitSlots
    return someLimitIsFull config claimed taskRun.limits

/-- A retry whose delay has yet to pass since it was created. -/
def isWaitingToRetry (attempt : TaskRunAttempt) : Code Bool := do
  if attempt.attempt > 1 then
    let taskRun ← getTaskRun attempt
    let now ← now
    return now < attempt.createdAt + seconds taskRun.retryDelay
  else
    return false

/-- The global cap on running attempts. -/
def isAtMaxRunningAttempts (config : Config) : Code Bool := do
  if config.app.maxRunningAttempts > 0 then
    let runningAttempts ← countRunningAttempts
    return runningAttempts ≥ config.app.maxRunningAttempts
  else
    return false

def shouldStayQueued (config : Config) (attempt : TaskRunAttempt) : Code Bool := do
  let isWaiting ← isWaitingToRetry attempt
  if isWaiting then
    return true
  else
    let isAtMax ← isAtMaxRunningAttempts config
    if isAtMax then
      return true
    else
      aClaimedLimitIsFull config attempt

/-- Invalid if already spawned for, skipped if stopped, queued behind a delay or
a limit, else running. -/
def deriveNextStatus (config : Config) (attempt : TaskRunAttempt) :
    Code TaskRunAttemptStatus := do
  if attempt.startedAt.isSome then
    return .invalid
  else
    let isStopped ← isJobRunStopped attempt.jobRunId
    if isStopped then
      return .skipped
    else
      let stayQueued ← shouldStayQueued config attempt
      return if stayQueued then .queued else .running

/-- `set_to_invalid`, `set_to_invalid_already_spawned` and `set_to_skipped` differ
in the status they write. -/
def settle (attempt : TaskRunAttempt) (status : TaskRunAttemptStatus) : Code Unit := do
  let now ← now
  updateTaskRunAttempts { id := some attempt.id }
    { status := some status, finishedAt := some (some now) }

def setToInvalid (attempt : TaskRunAttempt) : Code Unit := settle attempt .invalid

/-- Settles a queued attempt a spawn was already begun for. -/
def setToInvalidAlreadySpawned (attempt : TaskRunAttempt) : Code Unit := settle attempt .invalid

def setToSkipped (attempt : TaskRunAttempt) : Code Unit := settle attempt .skipped

/-! ## Spawning -/

/-- The attempts whose result each task of one job run produced. -/
def selectTaskRunOutputs (jobRunId : Nat) : Code (BTreeMap String Nat) := do
  let attempts ← selectTaskRunAttempts { jobRunId := some jobRunId, status := some .succeeded } none
  return (attempts.filter fun a => a.output ≠ "").foldl
    (fun outputs a => BTreeMap.insert outputs a.taskId a.attempt) []

/-- The result path of each dependency that produced one. -/
def getInputs (taskRun : TaskRun) (jobRunDir : String) : Code (BTreeMap String String) := do
  if taskRun.dependsOn.isEmpty then
    return []
  else
    let outputs ← selectTaskRunOutputs taskRun.jobRunId
    return taskRun.dependsOn.foldl
      (fun inputs taskId =>
        match outputs.get taskId with
        | none => inputs
        | some attempt => BTreeMap.insert inputs taskId (taskOutputPath jobRunDir taskId attempt))
      []

/-- For a retry, the files of the attempt before it. -/
def writePreviousAttemptFiles (attempt : TaskRunAttempt) (jobRunDir : String) :
    Code (Option PreviousAttemptFiles) := do
  if attempt.attempt < 2 then
    return none
  else
    let previousNumber := attempt.attempt - 1
    let attempts ← selectTaskRunAttempts { taskRunId := some attempt.taskRunId } none
    let previous ← orBail (s!"Task run {attempt.taskRunId} has no attempt {previousNumber} to " ++
        s!"hand attempt {attempt.attempt}")
      (attempts.find? fun a => a.attempt = previousNumber)
    let chunks ← selectTaskRunAttemptOutputs { taskRunAttemptId := some previous.id }
    let logPath := taskLogPath jobRunDir attempt.taskId previousNumber
    perform (.writeFile logPath (String.join (chunks.map (·.content))))
    let outputPath := taskOutputPath jobRunDir attempt.taskId previousNumber
    let hasOutput ← perform (.pathExists outputPath)
    return some { log := logPath, output := if hasOutput then some outputPath else none }

/-- Everything an attempt is spawned with that has to be read first. -/
def prepare (lib : Library) (config : Config) (attempt : TaskRunAttempt) :
    Code (TaskRun × Command) := do
  let taskRun ← getTaskRun attempt
  let jobRun ← getJobRun attempt
  let dir ← jobRunDir config jobRun.id
  let inputs ← getInputs taskRun dir
  let previousAttempt ← writePreviousAttemptFiles attempt dir
  let env ← Prog.ofExcept (buildTaskRunAttemptEnv lib taskRun jobRun attempt config.app.dataDir
    dir inputs previousAttempt config.app.secrets)
  return (taskRun,
    { script := taskRun.command, env, stdin := taskRun.stdin
      workingDir := if taskRun.workingDir = "" then dir else taskRun.workingDir })

/-- `started_at` is all this writes. -/
def updateStartedAt (attempt : TaskRunAttempt) (startedAt : Option Instant) : Code Unit :=
  updateTaskRunAttempts { id := some attempt.id } { startedAt := some startedAt }

/-- The child a spawn at `startedAt` hands over. -/
def childOf (taskRun : TaskRun) (startedAt : Instant) (process : Nat) : TaskRunAttemptChild :=
  { process, timesOutAt := startedAt + seconds taskRun.timeout
    idleTimeout := if taskRun.idleTimeout > 0 then some (seconds taskRun.idleTimeout) else none
    terminating := none }

/-- Hands the child over and sets the attempt to running, in that order. -/
def handOver (attempt : TaskRunAttempt) (child : TaskRunAttemptChild) (processGroupId : Nat) :
    Code Unit := do
  perform (.childrenInsert attempt.id child)
  updateTaskRunAttempts { id := some attempt.id }
    { status := some .running, processGroupId := some (some processGroupId) }

/-- Spawns the command of the attempt: `started_at` goes in before the spawn, and
out again when nothing was started. -/
def setToRunning (lib : Library) (config : Config) (attempt : TaskRunAttempt) : Code Unit := do
  let (taskRun, command) ← prepare lib config attempt
  let startedAt ← now
  updateStartedAt attempt (some startedAt)
  match ← (perform (.spawn attempt.id command startedAt)).attempt with
  | .error error =>
      updateStartedAt attempt none
      Prog.throw error
  | .ok (process, processGroupId) =>
      handOver attempt (childOf taskRun startedAt process) processGroupId

def handleQueuedTaskRunAttempt (lib : Library) (config : Config) (attempt : TaskRunAttempt) :
    Code Unit := do
  match ← deriveNextStatus config attempt with
  | .invalid => setToInvalidAlreadySpawned attempt
  | .skipped => setToSkipped attempt
  | .queued => return ()
  | .running => setToRunning lib config attempt
  | _ => setToInvalid attempt

def getQueuedTaskRunAttempts : Code (List TaskRunAttempt) :=
  selectTaskRunAttempts { status := some .queued } (some .id)

def poller (lib : Library) (config : Config) : Poller where
  Row := TaskRunAttempt
  select := getQueuedTaskRunAttempts
  handle := handleQueuedTaskRunAttempt lib config

end TaskRunAttemptDispatcher

end Flowlite
