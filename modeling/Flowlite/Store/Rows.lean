import Flowlite.Store.Table

/-!
# The rows flowlite keeps

The tables of the disk database, column by column, and the statuses their rows
go through. Instants are milliseconds, ids and pids natural numbers; the `u32`
columns are natural numbers below `2 ^ 32` wherever the code does arithmetic on
them.
-/

namespace Flowlite.Store

/-- Milliseconds since the epoch. -/
abbrev Instant := Int

/-- A whole number of seconds, in milliseconds. -/
def seconds (n : Nat) : Instant := 1000 * (n : Int)

/-! ## Ordered maps -/

/-- Keys in ascending order, each once. -/
abbrev BTreeMap (κ ν : Type) := List (κ × ν)

namespace BTreeMap

variable {κ ν : Type} [DecidableEq κ] [LT κ] [DecidableLT κ]

def get (m : BTreeMap κ ν) (k : κ) : Option ν :=
  (m.find? fun e => e.1 = k).map (·.2)

def containsKey (m : BTreeMap κ ν) (k : κ) : Bool :=
  m.any fun e => e.1 = k

def keys (m : BTreeMap κ ν) : List κ := m.map (·.1)

/-- Put `v` under `k`, in place of what was there. -/
def insert (m : BTreeMap κ ν) (k : κ) (v : ν) : BTreeMap κ ν :=
  match m with
  | [] => [(k, v)]
  | e :: rest =>
      if k = e.1 then (k, v) :: rest
      else if k < e.1 then (k, v) :: e :: rest
      else e :: BTreeMap.insert rest k v

def remove (m : BTreeMap κ ν) (k : κ) : BTreeMap κ ν :=
  m.filter fun e => e.1 ≠ k

/-- Every entry of `n` inserted into `m`. -/
def extend (m n : BTreeMap κ ν) : BTreeMap κ ν :=
  n.foldl (fun acc e => BTreeMap.insert acc e.1 e.2) m

end BTreeMap

theorem BTreeMap.get_insert {κ ν : Type} [DecidableEq κ] [LT κ] [DecidableLT κ]
    (m : BTreeMap κ ν) (k : κ) (v : ν) (k' : κ) :
    (BTreeMap.insert m k v).get k' = if k' = k then some v else m.get k' := by
  induction m with
  | nil => by_cases h : k' = k <;> simp [BTreeMap.insert, BTreeMap.get, h, eq_comm]
  | cons e rest ih =>
      have hget : ∀ (e : κ × ν) (m : BTreeMap κ ν), BTreeMap.get (e :: m) k' =
          if k' = e.1 then some e.2 else BTreeMap.get m k' := by
        intro e m
        by_cases h : k' = e.1
        · simp [BTreeMap.get, h]
        · simp [BTreeMap.get, h, show ¬ e.1 = k' from fun h' => h h'.symm]
      unfold BTreeMap.insert
      split
      · rename_i hk
        rw [hget, hget, ← hk]
        split <;> rfl
      · rename_i hk
        split
        · rw [hget]
        · rw [hget, ih, hget]
          by_cases h : k' = e.1
          · rw [if_pos h, if_neg (fun h' => hk (h'.symm.trans h)), if_pos h]
          · rw [if_neg h, if_neg h]

/-- The elements of a list in ascending order, each once. -/
def btreeSet {κ : Type} [DecidableEq κ] [LT κ] [DecidableLT κ] (xs : List κ) : List κ :=
  BTreeMap.keys (xs.foldl (fun acc x => BTreeMap.insert acc x ()) [])

theorem BTreeMap.mem_keys_insert {κ ν : Type} [DecidableEq κ] [LT κ] [DecidableLT κ]
    {m : BTreeMap κ ν} {k : κ} {v : ν} {k' : κ} :
    k' ∈ BTreeMap.keys (BTreeMap.insert m k v) ↔ k' = k ∨ k' ∈ m.keys := by
  induction m with
  | nil => simp [BTreeMap.insert, BTreeMap.keys]
  | cons e rest ih =>
      unfold BTreeMap.insert
      split
      · rename_i hk
        simp [BTreeMap.keys, hk]
      · split
        · simp [BTreeMap.keys]
        · simp only [BTreeMap.keys, List.map_cons, List.mem_cons] at ih ⊢
          rw [ih]
          tauto

theorem mem_btreeSet {κ : Type} [DecidableEq κ] [LT κ] [DecidableLT κ] {xs : List κ} {x : κ} :
    x ∈ btreeSet xs ↔ x ∈ xs := by
  suffices h : ∀ m : BTreeMap κ Unit, x ∈ BTreeMap.keys (xs.foldl (fun acc x =>
      BTreeMap.insert acc x ()) m) ↔ x ∈ m.keys ∨ x ∈ xs by
    exact (h []).trans (by simp [BTreeMap.keys])
  induction xs with
  | nil => simp
  | cons y rest ih =>
      intro m
      rw [List.foldl_cons, ih, BTreeMap.mem_keys_insert, List.mem_cons]
      tauto

/-! ## Job runs -/

inductive JobRunStatus
  /-- Written, but not yet due. -/
  | scheduled
  | queued
  | running
  | succeeded
  | failed
  | skipped
  | aborted
  | timedOut
  | invalid
  /-- Removed by hand while still scheduled, and kept as a tombstone. -/
  | deleted
  deriving DecidableEq

/-- Whether the run has settled and will not change again. -/
def JobRunStatus.isFinished : JobRunStatus → Bool
  | .scheduled | .queued | .running => false
  | .succeeded | .failed | .skipped | .aborted | .timedOut | .invalid | .deleted => true

structure JobRun where
  id : Nat
  jobId : String
  jobName : String
  jobDescription : String
  parameters : BTreeMap String String
  createdAt : Instant
  scheduledAt : Instant
  scheduleId : Option String
  /-- The task attempt that submitted this run, `none` for a run no task submitted. -/
  parentTaskRunAttemptId : Option Nat
  startedAt : Option Instant
  finishedAt : Option Instant
  status : JobRunStatus

/-! ## Task runs -/

inductive TaskRunStatus
  /-- Written with its job run, which has yet to start. -/
  | planned
  /-- Released with its job run, and waiting for the task runs it depends on. -/
  | waiting
  | running
  | succeeded
  | failed
  | skipped
  | aborted
  | timedOut
  | invalid
  deriving DecidableEq

/-- Whether the task run has settled and will not change again. -/
def TaskRunStatus.isFinished : TaskRunStatus → Bool
  | .planned | .waiting | .running => false
  | .succeeded | .failed | .skipped | .aborted | .timedOut | .invalid => true

/-- Whether the task run reports a stop: killed mid-flight, or never started. -/
def TaskRunStatus.isStopped : TaskRunStatus → Bool
  | .aborted | .skipped => true
  | .planned | .waiting | .running | .succeeded | .failed | .timedOut | .invalid => false

structure TaskRun where
  id : Nat
  jobRunId : Nat
  jobId : String
  taskId : String
  command : String
  stdin : String
  dependsOn : List String
  timeout : Nat
  idleTimeout : Nat
  maxRetries : Nat
  retryDelay : Nat
  env : BTreeMap String String
  /-- Environment variable name to secret name, never a value. -/
  secretEnv : BTreeMap String String
  workingDir : String
  limits : List String
  createdAt : Instant
  startedAt : Option Instant
  finishedAt : Option Instant
  status : TaskRunStatus

/-! ## Task run attempts -/

inductive TaskRunAttemptStatus
  | queued
  | running
  | succeeded
  | failed
  | skipped
  | aborted
  | timedOut
  | invalid
  deriving DecidableEq

/-- Whether the attempt has settled and will not change again. -/
def TaskRunAttemptStatus.isFinished : TaskRunAttemptStatus → Bool
  | .queued | .running => false
  | .succeeded | .failed | .skipped | .aborted | .timedOut | .invalid => true

/-- Whether the attempt reports a stop: killed mid-flight, or never started. -/
def TaskRunAttemptStatus.isStopped : TaskRunAttemptStatus → Bool
  | .aborted | .skipped => true
  | .queued | .running | .succeeded | .failed | .timedOut | .invalid => false

structure TaskRunAttempt where
  id : Nat
  taskRunId : Nat
  jobRunId : Nat
  jobId : String
  taskId : String
  createdAt : Instant
  startedAt : Option Instant
  finishedAt : Option Instant
  attempt : Nat
  status : TaskRunAttemptStatus
  /-- The spawned child's pid, which is its group id too. -/
  processGroupId : Option Nat
  /-- What the command wrote to `$FLOWLITE_TASK_OUTPUT`, empty for nothing at all. -/
  output : String
  /-- When this attempt's own process began waiting on another run. -/
  waitingSince : Option Instant

/-! ## What hangs off a run -/

structure JobRunStop where
  id : Nat
  jobRunId : Nat
  createdAt : Instant

/-- Which of an attempt's two streams a chunk came from. -/
inductive TaskRunAttemptOutputStream
  | stdout
  | stderr
  deriving DecidableEq

structure TaskRunAttemptOutput where
  id : Nat
  taskRunAttemptId : Nat
  taskRunId : Nat
  jobRunId : Nat
  jobId : String
  taskId : String
  stream : TaskRunAttemptOutputStream
  createdAt : Instant
  content : String

inductive JobRunNotificationStatus
  | pending
  | sent
  | failed
  | skipped
  deriving DecidableEq

/-- What a notification is waiting for its run to do. -/
inductive NotifyOn
  | failure
  | success
  deriving DecidableEq

/-- How a notification reaches somebody. -/
inductive NotificationChannel
  | email
  | slack
  deriving DecidableEq

structure JobRunNotification where
  id : Nat
  jobRunId : Nat
  jobId : String
  notifyOn : NotifyOn
  channel : NotificationChannel
  recipients : List String
  status : JobRunNotificationStatus
  error : String
  createdAt : Instant
  sentAt : Option Instant

instance : Keyed JobRun := ⟨JobRun.id⟩
instance : Keyed TaskRun := ⟨TaskRun.id⟩
instance : Keyed TaskRunAttempt := ⟨TaskRunAttempt.id⟩
instance : Keyed JobRunStop := ⟨JobRunStop.id⟩
instance : Keyed TaskRunAttemptOutput := ⟨TaskRunAttemptOutput.id⟩
instance : Keyed JobRunNotification := ⟨JobRunNotification.id⟩

@[simp] theorem key_jobRun (r : JobRun) : Keyed.key r = r.id := rfl
@[simp] theorem key_taskRun (r : TaskRun) : Keyed.key r = r.id := rfl
@[simp] theorem key_taskRunAttempt (r : TaskRunAttempt) : Keyed.key r = r.id := rfl
@[simp] theorem key_jobRunStop (r : JobRunStop) : Keyed.key r = r.id := rfl
@[simp] theorem key_jobRunNotification (r : JobRunNotification) : Keyed.key r = r.id := rfl

/-! ## The configuration loaded from YAML

What the `mem` schema of a connection holds: the jobs, tasks and schedules the
process that opened it has loaded. -/

structure Job where
  jobId : String
  name : String
  description : String
  /-- `0` for no limit. -/
  maxParallelRuns : Nat
  /-- The newest finished runs of this job retention keeps, `0` for all of them. -/
  keepRuns : Nat
  parameters : BTreeMap String String
  env : BTreeMap String String
  secretEnv : BTreeMap String String
  onFailureRecipients : BTreeMap NotificationChannel (List String)
  onSuccessRecipients : BTreeMap NotificationChannel (List String)
  limits : List String

structure Task where
  taskId : String
  jobId : String
  command : String
  stdin : String
  dependsOn : List String
  limits : List String
  timeout : Nat
  idleTimeout : Nat
  maxRetries : Nat
  retryDelay : Nat
  env : BTreeMap String String
  secretEnv : BTreeMap String String
  workingDir : String

structure Schedule where
  scheduleId : String
  cron : String
  timezone : String
  startDate : Option Int
  endDate : Option Int
  disabled : Bool
  submitAhead : Nat

structure ScheduleJob where
  scheduleId : String
  jobId : String
  parameters : BTreeMap String String

end Flowlite.Store
