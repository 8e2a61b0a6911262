import Flowlite.Store.Queries

/-!
# What the services write

Every statement that changes the disk database, and the two transactions. An
update input sets the columns it has a value for and leaves the others; an
update filter that is `none` in every field matches every row. Foreign keys and
unique indexes are the database's own: a statement that would break one fails
and changes nothing.
-/

namespace Flowlite.Store

/-- `SET column = …`, pushed only when the input gives a value. -/
def assign {α : Type} (given : Option α) (old : α) : α := given.getD old

@[simp] theorem assign_none {α : Type} (old : α) : assign none old = old := rfl

@[simp] theorem assign_some {α : Type} (a old : α) : assign (some a) old = a := rfl

/-! ## Job runs -/

structure InsertJobRunInput where
  jobId : String
  jobName : String
  jobDescription : String
  parameters : BTreeMap String String
  scheduledAt : Instant
  scheduleId : Option String
  parentTaskRunAttemptId : Option Nat
  status : JobRunStatus

def InsertJobRunInput.draft (i : InsertJobRunInput) (now : Instant) : Draft JobRun where
  row id :=
    { id, jobId := i.jobId, jobName := i.jobName, jobDescription := i.jobDescription
      parameters := i.parameters, createdAt := now, scheduledAt := i.scheduledAt
      scheduleId := i.scheduleId, parentTaskRunAttemptId := i.parentTaskRunAttemptId
      startedAt := none, finishedAt := none, status := i.status }
  key_row _ := rfl

structure UpdateJobRunsInput where
  status : Option JobRunStatus := none
  startedAt : Option (Option Instant) := none
  finishedAt : Option (Option Instant) := none

def UpdateJobRunsInput.patch (i : UpdateJobRunsInput) : Patch JobRun where
  apply r :=
    { r with
      status := assign i.status r.status
      startedAt := assign i.startedAt r.startedAt
      finishedAt := assign i.finishedAt r.finishedAt }
  key_apply _ := rfl

structure UpdateJobRunsFilter where
  id : Option Nat := none

def UpdateJobRunsFilter.holds (f : UpdateJobRunsFilter) (r : JobRun) : Bool :=
  clause f.id (fun v => r.id = v)

structure DeleteJobRunsFilter where
  id : Option Nat := none
  jobId : Option String := none
  status : Option JobRunStatus := none
  scheduleId : Option String := none
  scheduledAtGt : Option Instant := none

/-! ## Task runs -/

structure InsertTaskRunInput where
  jobRunId : Nat
  jobId : String
  taskId : String
  command : String
  stdin : String
  dependsOn : List String
  limits : List String
  timeout : Nat
  idleTimeout : Nat
  maxRetries : Nat
  retryDelay : Nat
  env : BTreeMap String String
  secretEnv : BTreeMap String String
  workingDir : String
  status : TaskRunStatus

def InsertTaskRunInput.draft (i : InsertTaskRunInput) (now : Instant) : Draft TaskRun where
  row id :=
    { id, jobRunId := i.jobRunId, jobId := i.jobId, taskId := i.taskId, command := i.command
      stdin := i.stdin, dependsOn := i.dependsOn, timeout := i.timeout
      idleTimeout := i.idleTimeout, maxRetries := i.maxRetries, retryDelay := i.retryDelay
      env := i.env, secretEnv := i.secretEnv, workingDir := i.workingDir, limits := i.limits
      createdAt := now, startedAt := none, finishedAt := none, status := i.status }
  key_row _ := rfl

structure UpdateTaskRunsInput where
  status : Option TaskRunStatus := none
  startedAt : Option (Option Instant) := none
  finishedAt : Option (Option Instant) := none

def UpdateTaskRunsInput.patch (i : UpdateTaskRunsInput) : Patch TaskRun where
  apply r :=
    { r with
      status := assign i.status r.status
      startedAt := assign i.startedAt r.startedAt
      finishedAt := assign i.finishedAt r.finishedAt }
  key_apply _ := rfl

structure UpdateTaskRunsFilter where
  id : Option Nat := none
  jobRunId : Option Nat := none
  status : Option TaskRunStatus := none

def UpdateTaskRunsFilter.holds (f : UpdateTaskRunsFilter) (r : TaskRun) : Bool :=
  clause f.id (fun v => r.id = v) &&
  clause f.jobRunId (fun v => r.jobRunId = v) &&
  clause f.status (fun v => r.status = v)

/-! ## Task run attempts -/

structure InsertTaskRunAttemptInput where
  taskRunId : Nat
  jobRunId : Nat
  jobId : String
  taskId : String
  attempt : Nat
  status : TaskRunAttemptStatus

def InsertTaskRunAttemptInput.draft (i : InsertTaskRunAttemptInput) (now : Instant) :
    Draft TaskRunAttempt where
  row id :=
    { id, taskRunId := i.taskRunId, jobRunId := i.jobRunId, jobId := i.jobId
      taskId := i.taskId, createdAt := now, startedAt := none, finishedAt := none
      attempt := i.attempt, status := i.status, processGroupId := none, output := ""
      waitingSince := none }
  key_row _ := rfl

structure UpdateTaskRunAttemptsInput where
  status : Option TaskRunAttemptStatus := none
  startedAt : Option (Option Instant) := none
  finishedAt : Option (Option Instant) := none
  processGroupId : Option (Option Nat) := none
  output : Option String := none
  waitingSince : Option (Option Instant) := none

def UpdateTaskRunAttemptsInput.patch (i : UpdateTaskRunAttemptsInput) :
    Patch TaskRunAttempt where
  apply r :=
    { r with
      status := assign i.status r.status
      startedAt := assign i.startedAt r.startedAt
      finishedAt := assign i.finishedAt r.finishedAt
      processGroupId := assign i.processGroupId r.processGroupId
      output := assign i.output r.output
      waitingSince := assign i.waitingSince r.waitingSince }
  key_apply _ := rfl

structure UpdateTaskRunAttemptsFilter where
  id : Option Nat := none
  taskRunId : Option Nat := none
  status : Option TaskRunAttemptStatus := none

def UpdateTaskRunAttemptsFilter.holds (f : UpdateTaskRunAttemptsFilter)
    (r : TaskRunAttempt) : Bool :=
  clause f.id (fun v => r.id = v) &&
  clause f.taskRunId (fun v => r.taskRunId = v) &&
  clause f.status (fun v => r.status = v)

/-! ## What hangs off a run -/

def stopDraft (jobRunId : Nat) (now : Instant) : Draft JobRunStop where
  row id := { id, jobRunId, createdAt := now }
  key_row _ := rfl

structure InsertTaskRunAttemptOutputInput where
  taskRunAttemptId : Nat
  taskRunId : Nat
  jobRunId : Nat
  jobId : String
  taskId : String
  stream : TaskRunAttemptOutputStream
  content : String

def InsertTaskRunAttemptOutputInput.draft (i : InsertTaskRunAttemptOutputInput)
    (now : Instant) : Draft TaskRunAttemptOutput where
  row id :=
    { id, taskRunAttemptId := i.taskRunAttemptId, taskRunId := i.taskRunId
      jobRunId := i.jobRunId, jobId := i.jobId, taskId := i.taskId, stream := i.stream
      createdAt := now, content := i.content }
  key_row _ := rfl

structure InsertJobRunNotificationInput where
  jobRunId : Nat
  jobId : String
  notifyOn : NotifyOn
  channel : NotificationChannel
  recipients : List String
  status : JobRunNotificationStatus
  error : String

def InsertJobRunNotificationInput.draft (i : InsertJobRunNotificationInput) (now : Instant) :
    Draft JobRunNotification where
  row id :=
    { id, jobRunId := i.jobRunId, jobId := i.jobId, notifyOn := i.notifyOn
      channel := i.channel, recipients := i.recipients, status := i.status
      error := i.error, createdAt := now, sentAt := none }
  key_row _ := rfl

structure UpdateJobRunNotificationsInput where
  status : Option JobRunNotificationStatus := none
  error : Option String := none
  sentAt : Option (Option Instant) := none

def UpdateJobRunNotificationsInput.patch (i : UpdateJobRunNotificationsInput) :
    Patch JobRunNotification where
  apply r :=
    { r with
      status := assign i.status r.status
      error := assign i.error r.error
      sentAt := assign i.sentAt r.sentAt }
  key_apply _ := rfl

/-! ## One write -/

inductive Write
  /-- `tasks` and `notifications` are no part of the statement: they record, for
  the history of the world, the task ids of the definition this row is the first
  one of, and how many notifications it has. -/
  | insertJobRun (input : InsertJobRunInput) (tasks : List String) (notifications : Nat)
  | insertTaskRun (input : InsertTaskRunInput)
  | insertTaskRunAttempt (input : InsertTaskRunAttemptInput)
  | insertJobRunStop (jobRunId : Nat)
  | insertTaskRunAttemptOutput (input : InsertTaskRunAttemptOutputInput)
  | insertJobRunNotification (input : InsertJobRunNotificationInput)
  | updateJobRuns (filter : UpdateJobRunsFilter) (input : UpdateJobRunsInput)
  | updateTaskRuns (filter : UpdateTaskRunsFilter) (input : UpdateTaskRunsInput)
  | updateTaskRunAttempts (filter : UpdateTaskRunAttemptsFilter)
      (input : UpdateTaskRunAttemptsInput)
  /-- The one update of this table is filtered by id. -/
  | updateJobRunNotification (id : Nat) (input : UpdateJobRunNotificationsInput)
  /-- `delete_job_run`, one transaction. -/
  | deleteJobRun (jobRunId : Nat) (now : Instant)
  /-- `delete_job_runs_with_children`, one transaction. -/
  | deleteJobRunsWithChildren (filter : DeleteJobRunsFilter)

abbrev Write.Answer : Write → Type
  | .insertJobRun _ _ _ | .insertTaskRun _ | .insertTaskRunAttempt _ | .insertJobRunStop _
  | .insertTaskRunAttemptOutput _ | .insertJobRunNotification _ => Nat
  | .updateJobRuns _ _ | .updateTaskRuns _ _ | .updateTaskRunAttempts _ _
  | .updateJobRunNotification _ _ => Unit
  | .deleteJobRun _ _ => Bool
  | .deleteJobRunsWithChildren _ => List Nat

namespace Database

variable (db : Database)

def hasJobRun (id : Nat) : Bool := (db.jobRuns.find id).isSome

def hasTaskRun (id : Nat) : Bool := (db.taskRuns.find id).isSome

def hasTaskRunAttempt (id : Nat) : Bool := (db.taskRunAttempts.find id).isSome

def updateJobRuns (filter : UpdateJobRunsFilter) (input : UpdateJobRunsInput) : Database :=
  { db with jobRuns := db.jobRuns.update filter.holds input.patch }

def updateTaskRuns (filter : UpdateTaskRunsFilter) (input : UpdateTaskRunsInput) : Database :=
  { db with taskRuns := db.taskRuns.update filter.holds input.patch }

def updateTaskRunAttempts (filter : UpdateTaskRunAttemptsFilter)
    (input : UpdateTaskRunAttemptsInput) : Database :=
  { db with taskRunAttempts := db.taskRunAttempts.update filter.holds input.patch }

/-- The two writes of `delete_job_run`'s transaction. -/
def tombstone (jobRunId : Nat) (now : Instant) : Database :=
  (db.updateTaskRuns { jobRunId := some jobRunId }
    { status := some .skipped, finishedAt := some (some now) }).updateJobRuns
      { id := some jobRunId } { status := some .deleted, finishedAt := some (some now) }

/-- The rows of every run of a list, gone from all six tables. -/
def deleteRows (ids : List Nat) : Database where
  jobRuns := db.jobRuns.delete fun r => ids.contains r.id
  taskRuns := db.taskRuns.delete fun r => ids.contains r.jobRunId
  taskRunAttempts := db.taskRunAttempts.delete fun r => ids.contains r.jobRunId
  jobRunStops := db.jobRunStops.delete fun r => ids.contains r.jobRunId
  taskRunAttemptOutputs := db.taskRunAttemptOutputs.delete fun r => ids.contains r.jobRunId
  jobRunNotifications := db.jobRunNotifications.delete fun r => ids.contains r.jobRunId

/-- No row is left that references one that is gone. -/
def referencesHold : Bool :=
  (db.jobRuns.rows.all fun r =>
    (r.parentTaskRunAttemptId.all db.hasTaskRunAttempt)) &&
  (db.taskRuns.rows.all fun r => db.hasJobRun r.jobRunId) &&
  (db.taskRunAttempts.rows.all fun r => db.hasTaskRun r.taskRunId && db.hasJobRun r.jobRunId) &&
  (db.jobRunStops.rows.all fun r => db.hasJobRun r.jobRunId) &&
  (db.taskRunAttemptOutputs.rows.all fun r =>
    db.hasTaskRunAttempt r.taskRunAttemptId && db.hasTaskRun r.taskRunId &&
      db.hasJobRun r.jobRunId) &&
  (db.jobRunNotifications.rows.all fun r => db.hasJobRun r.jobRunId)

/-- The runs a delete filter resolves to, inside the transaction. -/
def resolveDelete (filter : DeleteJobRunsFilter) : List Nat :=
  ((db.selectJobRuns
    { filter := { id := filter.id, jobId := filter.jobId, status := filter.status
                  scheduleId := filter.scheduleId } }).filter fun r =>
      clause filter.scheduledAtGt (fun after => r.scheduledAt > after)).map (·.id)

/-- What a statement that deletes leaves, unless a reference to a deleted row is left. -/
def checked (db : Database) : Option Database := if db.referencesHold then some db else none

/-- `delete_job_run_rows`: one run's rows across the six tables, children first. -/
def deleteJobRunRows (db : Database) (id : Nat) : Option Database := do
  let db ← checked { db with
    taskRunAttemptOutputs := db.taskRunAttemptOutputs.delete fun r => r.jobRunId = id }
  let db ← checked { db with
    taskRunAttempts := db.taskRunAttempts.delete fun r => r.jobRunId = id }
  let db ← checked { db with taskRuns := db.taskRuns.delete fun r => r.jobRunId = id }
  let db ← checked { db with jobRunStops := db.jobRunStops.delete fun r => r.jobRunId = id }
  let db ← checked { db with
    jobRunNotifications := db.jobRunNotifications.delete fun r => r.jobRunId = id }
  checked { db with jobRuns := db.jobRuns.delete fun r => r.id = id }

/-- The runs one matched run takes along and itself, in the order they are deleted. -/
def deletedWith (db : Database) (id : Nat) : List Nat :=
  ((db.selectJobRunDescendants id).map (·.id)).reverse ++ [id]

/-- `delete_job_runs_with_children`, once the filter is resolved: the descendants of each
run are looked for when its turn comes. Answers every id a delete was made for. -/
def deleteJobRunsWithChildren (db : Database) : List Nat → Option (List Nat × Database)
  | [] => some ([], db)
  | id :: ids => do
      let gone := db.deletedWith id
      let db ← gone.foldlM deleteJobRunRows db
      let (deleted, db) ← db.deleteJobRunsWithChildren ids
      return (gone ++ deleted, db)

/-- What is deleted for a list of matched runs, as far as every delete goes through. -/
def deletedFrom (db : Database) : List Nat → List Nat
  | [] => []
  | id :: ids => db.deletedWith id ++ (db.deleteRows (db.deletedWith id)).deletedFrom ids

/-- Every id the transaction deletes for, descendants before the run above them. -/
def deletedBy (filter : DeleteJobRunsFilter) : List Nat :=
  db.deletedFrom (db.resolveDelete filter)

end Database

/-- What a write does; `none` for one that breaks a constraint. -/
def Write.run (db : Database) (now : Instant) : (w : Write) → Option (w.Answer × Database)
  | .insertJobRun input _ _ =>
      if input.parentTaskRunAttemptId.all db.hasTaskRunAttempt then
        some (db.jobRuns.next, { db with jobRuns := db.jobRuns.insert (input.draft now) })
      else none
  | .insertTaskRun input =>
      if db.hasJobRun input.jobRunId &&
          !(db.taskRuns.rows.any fun r =>
            r.jobRunId = input.jobRunId && r.taskId = input.taskId && r.jobId = input.jobId) then
        some (db.taskRuns.next, { db with taskRuns := db.taskRuns.insert (input.draft now) })
      else none
  | .insertTaskRunAttempt input =>
      if db.hasTaskRun input.taskRunId && db.hasJobRun input.jobRunId &&
          !(db.taskRunAttempts.rows.any fun r =>
            r.taskRunId = input.taskRunId && r.attempt = input.attempt) then
        some (db.taskRunAttempts.next,
          { db with taskRunAttempts := db.taskRunAttempts.insert (input.draft now) })
      else none
  | .insertJobRunStop jobRunId =>
      if db.hasJobRun jobRunId then
        some (db.jobRunStops.next,
          { db with jobRunStops := db.jobRunStops.insert (stopDraft jobRunId now) })
      else none
  | .insertTaskRunAttemptOutput input =>
      if db.hasTaskRunAttempt input.taskRunAttemptId && db.hasTaskRun input.taskRunId &&
          db.hasJobRun input.jobRunId then
        some (db.taskRunAttemptOutputs.next,
          { db with taskRunAttemptOutputs := db.taskRunAttemptOutputs.insert (input.draft now) })
      else none
  | .insertJobRunNotification input =>
      if db.hasJobRun input.jobRunId then
        some (db.jobRunNotifications.next,
          { db with jobRunNotifications := db.jobRunNotifications.insert (input.draft now) })
      else none
  | .updateJobRuns filter input => some ((), db.updateJobRuns filter input)
  | .updateTaskRuns filter input => some ((), db.updateTaskRuns filter input)
  | .updateTaskRunAttempts filter input => some ((), db.updateTaskRunAttempts filter input)
  | .updateJobRunNotification id input =>
      some ((), { db with
        jobRunNotifications := db.jobRunNotifications.update (fun r => r.id = id) input.patch })
  | .deleteJobRun jobRunId deletedAt =>
      if (db.jobRuns.find jobRunId).any fun r => r.status = .scheduled then
        some (true, db.tombstone jobRunId deletedAt)
      else some (false, db)
  | .deleteJobRunsWithChildren filter => db.deleteJobRunsWithChildren (db.resolveDelete filter)

/-! ## What the deletes amount to -/

namespace Database

theorem checked_eq_some {db db' : Database} :
    db.checked = some db' ↔ db' = db ∧ db.referencesHold = true := by
  unfold checked
  by_cases hrefs : db.referencesHold = true
  · rw [if_pos hrefs, Option.some.injEq]
    exact ⟨fun h => ⟨h.symm, hrefs⟩, fun h => h.1.symm⟩
  · rw [if_neg hrefs]
    exact iff_of_false nofun fun h => hrefs h.2

theorem deleteRows_nil (db : Database) : db.deleteRows [] = db := by
  unfold deleteRows
  simp only [List.contains_nil, Table.delete_false]

theorem deleteRows_append (db : Database) (xs ys : List Nat) :
    (db.deleteRows xs).deleteRows ys = db.deleteRows (xs ++ ys) := by
  simp [deleteRows, Table.delete_delete]

/-- The statements of one run's delete leave what deleting its rows leaves. -/
theorem deleteJobRunRows_eq {db db' : Database} {id : Nat}
    (h : db.deleteJobRunRows id = some db') :
    db' = db.deleteRows [id] ∧ db'.referencesHold = true := by
  unfold deleteJobRunRows at h
  simp only [Option.bind_eq_bind, Option.bind_eq_some_iff, checked_eq_some] at h
  obtain ⟨_, ⟨rfl, -⟩, _, ⟨rfl, -⟩, _, ⟨rfl, -⟩, _, ⟨rfl, -⟩, _, ⟨rfl, -⟩, rfl, hrefs⟩ := h
  exact ⟨by simp [deleteRows], hrefs⟩

theorem foldlM_deleteJobRunRows_eq {db db' : Database} {ids : List Nat}
    (h : ids.foldlM deleteJobRunRows db = some db') :
    db' = db.deleteRows ids ∧ (ids ≠ [] → db'.referencesHold = true) := by
  induction ids generalizing db with
  | nil =>
      rw [List.foldlM_nil] at h
      cases h
      exact ⟨(deleteRows_nil _).symm, fun hne => absurd rfl hne⟩
  | cons id ids ih =>
      obtain ⟨db₁, hfirst, hrest⟩ := Option.bind_eq_some_iff.mp h
      obtain ⟨rfl, hrefs⟩ := deleteJobRunRows_eq hfirst
      obtain ⟨rfl, hlast⟩ := ih hrest
      refine ⟨deleteRows_append db [id] ids, fun _ => ?_⟩
      cases ids with
      | nil => rwa [deleteRows_nil]
      | cons a ids => exact hlast (List.cons_ne_nil _ _)

/-- A transaction that goes through deletes the rows of the ids it answers. -/
theorem deleteJobRunsWithChildren_eq {ids deleted : List Nat} {db db' : Database}
    (h : db.deleteJobRunsWithChildren ids = some (deleted, db')) :
    deleted = db.deletedFrom ids ∧ db' = db.deleteRows deleted ∧
      (deleted ≠ [] → db'.referencesHold = true) := by
  induction ids generalizing db deleted with
  | nil =>
      cases h
      exact ⟨rfl, (deleteRows_nil _).symm, fun hne => absurd rfl hne⟩
  | cons id ids ih =>
      unfold deleteJobRunsWithChildren at h
      simp only [Option.bind_eq_bind, Option.bind_eq_some_iff] at h
      obtain ⟨db₁, hfirst, ⟨later, db₂⟩, hrest, heq⟩ := h
      cases heq
      obtain ⟨rfl, hgone⟩ := foldlM_deleteJobRunRows_eq hfirst
      obtain ⟨rfl, rfl, hlast⟩ := ih hrest
      refine ⟨rfl, deleteRows_append db _ _, fun _ => ?_⟩
      by_cases hnone : (db.deleteRows (db.deletedWith id)).deletedFrom ids = []
      · rw [hnone, deleteRows_nil]
        exact hgone (by simp [deletedWith])
      · exact hlast hnone

/-- What a delete that goes through does. -/
theorem run_deleteJobRunsWithChildren {db db' : Database} {now : Instant}
    {filter : DeleteJobRunsFilter} {ids : List Nat}
    (h : Write.run db now (.deleteJobRunsWithChildren filter) = some (ids, db')) :
    ids = db.deletedBy filter ∧ db' = db.deleteRows (db.deletedBy filter) ∧
      (db.deletedBy filter ≠ [] → db'.referencesHold = true) := by
  obtain ⟨rfl, hdb, hrefs⟩ := deleteJobRunsWithChildren_eq h
  exact ⟨rfl, hdb, hrefs⟩

end Database

end Flowlite.Store
