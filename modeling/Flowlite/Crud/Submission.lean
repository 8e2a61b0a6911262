import Flowlite.Crud.Statements

/-!
# Submitting runs

`submit_job` and `rerun_job`: each builds the definition one job run will
execute, the first from the configuration and the second from an earlier run's
own rows, and `insert_job_run_definition` writes it, one row per statement on a
plain connection.
-/

namespace Flowlite.Crud

open Store Host Threads

structure JobRunTaskDefinition where
  taskId : String
  command : String
  stdin : String
  dependsOn : List String
  limits : List String
  timeout : Nat
  idleTimeout : Nat
  maxRetries : Nat
  retryDelay : Nat
  env : BTreeMap String String
  secretEnv : BTreeMap String String
  workingDir : String

structure JobRunNotificationDefinition where
  notifyOn : NotifyOn
  channel : NotificationChannel
  recipients : List String

/-- A job's definition, as one job run will execute it. -/
structure JobRunDefinition where
  jobId : String
  jobName : String
  jobDescription : String
  parameters : BTreeMap String String
  scheduledAt : Instant
  scheduleId : Option String
  parentTaskRunAttemptId : Option Nat
  tasks : List JobRunTaskDefinition
  notifications : List JobRunNotificationDefinition

/-- The row `insert_job_run_definition` writes first. -/
def JobRunDefinition.jobRunInput (d : JobRunDefinition) : InsertJobRunInput :=
  { jobId := d.jobId, jobName := d.jobName, jobDescription := d.jobDescription
    parameters := d.parameters, scheduledAt := d.scheduledAt, scheduleId := d.scheduleId
    parentTaskRunAttemptId := d.parentTaskRunAttemptId, status := .scheduled }

/-- The row it writes for one task. -/
def JobRunDefinition.taskRunInput (d : JobRunDefinition) (jobRunId : Nat)
    (task : JobRunTaskDefinition) : InsertTaskRunInput :=
  { jobRunId, jobId := d.jobId, taskId := task.taskId, command := task.command
    stdin := task.stdin, dependsOn := task.dependsOn, limits := task.limits
    timeout := task.timeout, idleTimeout := task.idleTimeout, maxRetries := task.maxRetries
    retryDelay := task.retryDelay, env := task.env, secretEnv := task.secretEnv
    workingDir := task.workingDir, status := .planned }

/-- The row it writes for one channel. -/
def JobRunDefinition.notificationInput (d : JobRunDefinition) (jobRunId : Nat)
    (n : JobRunNotificationDefinition) : InsertJobRunNotificationInput :=
  { jobRunId, jobId := d.jobId, notifyOn := n.notifyOn, channel := n.channel
    recipients := n.recipients, status := .pending, error := "" }

/-- The parent a run submitted from inside a task is linked to, checked before
the run is written. -/
def resolveParentTaskRunAttempt (taskRunAttemptId : Option Nat) : Code (Option Nat) :=
  match taskRunAttemptId with
  | none => return none
  | some id => do
      let attempts ← selectTaskRunAttempts { id := some id } none
      match attempts.head? with
      | none => return none
      | some attempt =>
          if attempt.status.isFinished && attempt.status ≠ .succeeded then
            bail (s!"Task run attempt {attempt.id} has already ended without succeeding, so it " ++
              "cannot submit new runs")
          else
            let stop ← selectJobRunStop attempt.jobRunId
            if stop.isSome then
              bail (s!"Job run {attempt.jobRunId} is being stopped, so its tasks cannot submit " ++
                "new runs")
            else
              return some id

/-- Inserts a scheduled job run, one planned task run per task, and one open
notification per channel. -/
def insertJobRunDefinition (d : JobRunDefinition) : Code Nat := do
  let jobRunId ← insertJobRun d.jobRunInput (d.tasks.map (·.taskId)) d.notifications.length
  Prog.forEach d.tasks fun task => do
    let _ ← insertTaskRun (d.taskRunInput jobRunId task)
  Prog.forEach d.notifications fun n => do
    let _ ← insertJobRunNotification (d.notificationInput jobRunId n)
  return jobRunId

/-! ## `submit_job` -/

def isValidParameterName (name : String) : Bool :=
  match name.toList with
  | [] => false
  | first :: rest =>
      (first.isAlpha || first = '_') && rest.all fun c => c.isAlphanum || c = '_'

/-- The first name whose uppercase form a name before it has, with that name. -/
def collidingParameter (seen : BTreeMap String String) :
    List String → Option (String × String × String)
  | [] => none
  | name :: rest =>
      let envName := name.toUpper
      match seen.get envName with
      | some other => some (other, name, envName)
      | none => collidingParameter (BTreeMap.insert seen envName name) rest

/-- The parameters one run will carry: the job's declared defaults, with the
caller's overrides applied. -/
def resolveJobParameters (jobId : String) (declared overrides : BTreeMap String String) :
    Except Err (BTreeMap String String) :=
  match overrides.find? fun e => !declared.containsKey e.1 with
  | some e =>
      let declaredNames :=
        if declared.isEmpty then "none" else String.intercalate ", " declared.keys
      .error ⟨s!"Job '{jobId}' does not declare a parameter '{e.1}'. Declared: {declaredNames}"⟩
  | none =>
      let parameters := declared.extend overrides
      match parameters.keys.find? fun name => !isValidParameterName name with
      | some name =>
          .error ⟨s!"Job '{jobId}' has a parameter named '{name}', which is not a " ++
            "valid environment variable name. A parameter name may contain only ASCII letters, " ++
            "digits and underscores, and may not start with a digit."⟩
      | none =>
          match collidingParameter [] parameters.keys with
          | some (other, name, envName) =>
              .error ⟨s!"Job '{jobId}' declares parameters '{other}' and '{name}', which " ++
                s!"both become the environment variable FLOWLITE_PARAM_{envName}. Parameter " ++
                "names must be distinct once uppercased."⟩
          | none => .ok parameters

/-- A name the task declares in one of its two blocks is dropped from the other. -/
def withoutKeysOf (m names : BTreeMap String String) : BTreeMap String String :=
  names.keys.foldl (fun acc name => BTreeMap.remove acc name) m

/-- One task's definition: `env` and `secret_env` merged from the job's own and
the task's own, the task's own winning, and the two claim lists as one set. -/
def jobRunTaskDefinition (task : Task) (job : Job) : JobRunTaskDefinition :=
  { taskId := task.taskId, command := task.command, stdin := task.stdin
    dependsOn := task.dependsOn, limits := btreeSet (job.limits ++ task.limits)
    timeout := task.timeout, idleTimeout := task.idleTimeout, maxRetries := task.maxRetries
    retryDelay := task.retryDelay
    env := withoutKeysOf (job.env.extend task.env) task.secretEnv
    secretEnv := withoutKeysOf (job.secretEnv.extend task.secretEnv) task.env
    workingDir := task.workingDir }

/-- One notification per channel each block named somebody under. -/
def jobRunNotificationDefinitions
    (onFailure onSuccess : BTreeMap NotificationChannel (List String)) :
    List JobRunNotificationDefinition :=
  (onFailure.map fun e => { notifyOn := .failure, channel := e.1, recipients := e.2 }) ++
    onSuccess.map fun e => { notifyOn := .success, channel := e.1, recipients := e.2 }

/-- Submits a run of the job's current definition. -/
def submitJob (config : Config) (jobId : String) (overrides : BTreeMap String String)
    (scheduledAt : Instant) (scheduleId : Option String)
    (parentTaskRunAttemptId : Option Nat) : Code Nat := do
  let parentTaskRunAttemptId ← resolveParentTaskRunAttempt parentTaskRunAttemptId
  let job ← orBail s!"Job '{jobId}' not found" (← selectJob config jobId)
  let parameters ← Prog.ofExcept (resolveJobParameters jobId job.parameters overrides)
  let tasks ← selectTasks config jobId
  insertJobRunDefinition
    { jobId := job.jobId, jobName := job.name, jobDescription := job.description
      parameters, scheduledAt, scheduleId, parentTaskRunAttemptId
      tasks := tasks.map fun task => jobRunTaskDefinition task job
      notifications :=
        jobRunNotificationDefinitions job.onFailureRecipients job.onSuccessRecipients }

/-! ## `rerun_job` -/

/-- The definition an earlier run executed, as one of its task runs has it. -/
def rerunTaskDefinition (taskRun : TaskRun) : JobRunTaskDefinition :=
  { taskId := taskRun.taskId, command := taskRun.command, stdin := taskRun.stdin
    dependsOn := taskRun.dependsOn, limits := taskRun.limits, timeout := taskRun.timeout
    idleTimeout := taskRun.idleTimeout, maxRetries := taskRun.maxRetries
    retryDelay := taskRun.retryDelay, env := taskRun.env, secretEnv := taskRun.secretEnv
    workingDir := taskRun.workingDir }

/-- Submits a fresh run of the definition the given run executed. -/
def rerunJob (jobRunId : Nat) (parentTaskRunAttemptId : Option Nat) : Code Nat := do
  let parentTaskRunAttemptId ← resolveParentTaskRunAttempt parentTaskRunAttemptId
  let jobRun ← orBail s!"Job run {jobRunId} not found" (← selectJobRun { id := some jobRunId })
  let taskRuns ← selectTaskRuns { jobRunId := some jobRunId }
  let notifications ← selectJobRunNotifications { jobRunId := some jobRunId }
  insertJobRunDefinition
    { jobId := jobRun.jobId, jobName := jobRun.jobName, jobDescription := jobRun.jobDescription
      parameters := jobRun.parameters, scheduledAt := jobRun.scheduledAt
      -- a rerun is a manual submission: the schedule asked for the original
      scheduleId := none
      parentTaskRunAttemptId
      tasks := taskRuns.map rerunTaskDefinition
      notifications := notifications.map fun n =>
        { notifyOn := n.notifyOn, channel := n.channel, recipients := n.recipients } }

end Flowlite.Crud
