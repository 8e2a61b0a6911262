import Flowlite.Crud.TaskGraph

/-!
# From a job file to rows

`seed_job`: what it refuses a job file for, and the rows of the `mem` schema it writes for
one it accepts. The rows of `task_dependent` are left out: nothing reads them.
-/

namespace Flowlite.Crud

open Store Host Yaml

/-- `[job_defaults]`. -/
structure AppConfigJobDefaults where
  timeoutSeconds : Nat
  idleTimeoutSeconds : Nat
  maxRetries : Nat
  retryDelaySeconds : Nat
  maxParallelRuns : Nat
  keepRuns : Nat

/-- What `seed_job` reads of flowlite.toml. -/
structure SeedConfig where
  jobDefaults : AppConfigJobDefaults
  /-- Whether there is an `[smtp]` section. -/
  smtp : Bool
  /-- Whether there is a `[slack]` section. -/
  slack : Bool
  concurrencyLimits : BTreeMap String Nat

/-- `with_context`, printed with its cause. -/
def withContext {α : Type} (text : String) : Except Err α → Except Err α
  | .ok a => .ok a
  | .error e => .error ⟨s!"{text}: {e.text}"⟩

/-- Whom a notify block tells, by channel; a channel that names nobody is left out. -/
def jobNotifyRecipients (notify : JobYamlNotify) : BTreeMap NotificationChannel (List String) :=
  [(NotificationChannel.email, notify.email), (.slack, notify.slack)].filter
    fun e => !e.2.isEmpty

/-- How a channel is printed. -/
def channelName : NotificationChannel → String
  | .email => "email"
  | .slack => "slack"

/-- The section of flowlite.toml a channel needs, if it is not there. -/
def missingSection (config : SeedConfig) : NotificationChannel → Option String
  | .email => if config.smtp then none else some "[smtp]"
  | .slack => if config.slack then none else some "[slack]"

def validateJobNotifications (config : SeedConfig) (jobYaml : JobYaml) : Except Err Unit :=
  [("on_failure", jobYaml.onFailure), ("on_success", jobYaml.onSuccess)].forM
    fun (block, notify) => (jobNotifyRecipients notify).forM fun (channel, recipients) =>
      match missingSection config channel with
      | some missing =>
          let names := String.intercalate ", " recipients
          .error ⟨s!"{block}.{channelName channel} names {names} but " ++
            s!"flowlite.toml has no {missing} section, so nothing can be sent by " ++
            s!"{channelName channel}. Add one, or remove the recipients."⟩
      | none => .ok ()

/-- One block of limits, each of which has to be configured. -/
def validateLimits (config : SeedConfig) (subject : String) (limits : List String) :
    Except Err Unit :=
  match limits.find? fun limit => !config.concurrencyLimits.containsKey limit with
  | some limit =>
      .error ⟨s!"{subject} claims limit '{limit}', which is not a key of " ++
        "[concurrency_limits] in flowlite.toml"⟩
  | none => .ok ()

def validateJobLimits (config : SeedConfig) (jobYaml : JobYaml) : Except Err Unit := do
  validateLimits config s!"Job '{jobYaml.id}'" jobYaml.limits
  jobYaml.tasks.forM fun task =>
    validateLimits config s!"Job '{jobYaml.id}' task '{task.id}'" task.limits

/-- The row of the job. -/
def jobRow (defaults : AppConfigJobDefaults) (jobYaml : JobYaml) : Job where
  jobId := jobYaml.id
  name := jobYaml.name
  description := jobYaml.description
  maxParallelRuns := jobYaml.maxParallelRuns.getD defaults.maxParallelRuns
  keepRuns := jobYaml.keepRuns.getD defaults.keepRuns
  parameters := jobYaml.parameters
  env := jobYaml.env
  secretEnv := jobYaml.secretEnv
  onFailureRecipients := jobNotifyRecipients jobYaml.onFailure
  onSuccessRecipients := jobNotifyRecipients jobYaml.onSuccess
  limits := jobYaml.limits

/-- The row of one of its tasks. -/
def taskRow (defaults : AppConfigJobDefaults) (jobId : String) (task : JobYamlTask) : Task where
  taskId := task.id
  jobId
  command := task.command
  stdin := task.stdin
  dependsOn := task.dependsOn
  limits := task.limits
  timeout := task.timeout.getD defaults.timeoutSeconds
  idleTimeout := task.idleTimeout.getD defaults.idleTimeoutSeconds
  maxRetries := task.maxRetries.getD defaults.maxRetries
  retryDelay := task.retryDelay.getD defaults.retryDelaySeconds
  env := task.env
  secretEnv := task.secretEnv
  workingDir := task.workingDir

/-- The rows of a job file, or what it is refused for. -/
def seedJob (config : SeedConfig) (jobPath : String) (jobYaml : JobYaml) :
    Except Err (Job × List Task) := do
  withContext s!"Invalid tasks of job '{jobYaml.id}' at {jobPath}" (validateJobTasks jobYaml)
  withContext s!"Invalid notifications of job '{jobYaml.id}' at {jobPath}"
    (validateJobNotifications config jobYaml)
  withContext s!"Invalid limits of job '{jobYaml.id}' at {jobPath}"
    (validateJobLimits config jobYaml)
  return (jobRow config.jobDefaults jobYaml,
    jobYaml.tasks.map (taskRow config.jobDefaults jobYaml.id))

end Flowlite.Crud
