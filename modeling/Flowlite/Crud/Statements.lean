import Flowlite.Host.World

/-!
# Statements as programs

The CRUD methods the services call, each a single operation on the world; an
entity's `select_one` is the first row of its `select`.
-/

namespace Flowlite

open Store Host Threads

/-- Code of flowlite: what it computes between its operations is pure. -/
abbrev Code (α : Type) := Prog flowliteOps α

namespace Crud

/-- One operation. -/
def perform (o : Op) : Code o.Ret := Prog.perform (S := flowliteOps) o

/-- `anyhow::bail!`. -/
def bail {α : Type} (text : String) : Code α := .throw ⟨text⟩

/-- `ok_or_else`. -/
def orBail {α : Type} (text : String) : Option α → Code α
  | some a => .ret a
  | none => bail text

def now : Code Instant := perform .now

def select (q : Query) : Code q.Answer := perform (.select q)

def write (w : Write) : Code w.Answer := perform (.write w)

def selectJobRuns (q : SelectJobRuns) : Code (List JobRun) := select (.jobRuns q)

def selectJobRun (filter : SelectJobRunsFilter) : Code (Option JobRun) := do
  return (← selectJobRuns { filter, limit := some 1 }).head?

def countJobRuns (filter : SelectJobRunsFilter) : Code Nat := select (.countJobRuns filter)

def selectJobRunJobIds (filter : SelectJobRunsFilter) : Code (List String) :=
  select (.jobRunJobIds filter)

def selectTaskRuns (filter : SelectTaskRunsFilter) : Code (List TaskRun) :=
  select (.taskRuns filter)

def selectTaskRun (filter : SelectTaskRunsFilter) : Code (Option TaskRun) := do
  return (← selectTaskRuns filter).head?

def selectTaskRunAttempts (filter : SelectTaskRunAttemptsFilter)
    (sort : Option SelectTaskRunAttemptsSort) : Code (List TaskRunAttempt) :=
  select (.taskRunAttempts filter sort)

/-- Every caller asks after one run, and for no more than one row. -/
def selectJobRunStop (jobRunId : Nat) : Code (Option JobRunStop) := do
  return (← select (.jobRunStops { jobRunId := some jobRunId } (some 1))).head?

def selectTaskRunAttemptOutputs (filter : SelectTaskRunAttemptOutputsFilter) :
    Code (List TaskRunAttemptOutput) :=
  select (.taskRunAttemptOutputs filter)

def selectJobRunNotifications (filter : SelectJobRunNotificationsFilter) :
    Code (List JobRunNotification) :=
  select (.jobRunNotifications filter)

def insertJobRun (input : InsertJobRunInput) (tasks : List String) (notifications : Nat) :
    Code Nat :=
  write (.insertJobRun input tasks notifications)

def insertTaskRun (input : InsertTaskRunInput) : Code Nat := write (.insertTaskRun input)

def insertTaskRunAttempt (input : InsertTaskRunAttemptInput) : Code Nat :=
  write (.insertTaskRunAttempt input)

def insertJobRunStop (jobRunId : Nat) : Code Nat := write (.insertJobRunStop jobRunId)

def insertTaskRunAttemptOutput (input : InsertTaskRunAttemptOutputInput) : Code Nat :=
  write (.insertTaskRunAttemptOutput input)

def insertJobRunNotification (input : InsertJobRunNotificationInput) : Code Nat :=
  write (.insertJobRunNotification input)

def updateJobRuns (filter : UpdateJobRunsFilter) (input : UpdateJobRunsInput) : Code Unit :=
  write (.updateJobRuns filter input)

def updateTaskRuns (filter : UpdateTaskRunsFilter) (input : UpdateTaskRunsInput) : Code Unit :=
  write (.updateTaskRuns filter input)

def updateTaskRunAttempts (filter : UpdateTaskRunAttemptsFilter)
    (input : UpdateTaskRunAttemptsInput) : Code Unit :=
  write (.updateTaskRunAttempts filter input)

def updateJobRunNotification (id : Nat) (input : UpdateJobRunNotificationsInput) : Code Unit :=
  write (.updateJobRunNotification id input)

/-! ## The `mem` schema

Read on the caller's own connection, whose YAML is `config`. -/

def selectJob (config : Config) (jobId : String) : Code (Option Job) := do
  perform .selectMem
  return config.jobs.find? fun j => j.jobId = jobId

def selectTasks (config : Config) (jobId : String) : Code (List Task) := do
  perform .selectMem
  return config.tasks.filter fun t => t.jobId = jobId

def selectSchedules (config : Config) : Code (List Schedule) := do
  perform .selectMem
  return config.schedules

def selectScheduleJobs (config : Config) (scheduleId : String) : Code (List ScheduleJob) := do
  perform .selectMem
  return config.scheduleJobs.filter fun j => j.scheduleId = scheduleId

/-! ## Undisturbed

What a caller comes to by itself: nobody acts between its operations, and none of them
fails that need not. -/

/-- The answer of an operation that is not made to fail, at what the clock then reads. -/
abbrev undisturbed (clock : World → Instant) (w : World) (o : Op) : Option (Result o × World) :=
  w.outcome { now := clock w } o

theorem undisturbed_select {clock : World → Instant} {w : World} (q : Query) :
    (select q).alone (undisturbed clock) w = some (.ok (q.run w.db), w) :=
  Prog.alone_perform (S := flowliteOps) (o := Op.select q) rfl

end Crud

end Flowlite
