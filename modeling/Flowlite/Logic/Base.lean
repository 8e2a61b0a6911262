import Flowlite.Logic.Effects

/-!
# Who writes what

The writes each thread's code contains, whatever its reads answer: `Writes` for
the statements and `Allowed` for the other operations that matter to somebody
else. `pass_allowed` and `request_allowed` walk through the code of every service
and every caller once, so that no later proof has to look at a thread that cannot
touch what it is about.
-/

namespace Flowlite

open Store Host Threads Crud Machine

/-- The threads that submit runs. -/
def Submits (t : Tid) : Prop := t = .service .scheduler ∨ ∃ n, t = .client n

/-- The services that end a run nobody started. -/
def Releases (t : Tid) : Prop :=
  t = .service .jobRunReleaser ∨ t = .service .jobRunDispatcher

/-- The statements a thread's code contains. -/
inductive Writes : Tid → Write → Prop
  | submitScheduled {i : InsertJobRunInput} {tasks : List String} {n : Nat} :
      i.status = .scheduled → i.scheduleId.isSome → i.parentTaskRunAttemptId = none →
      Writes (.service .scheduler) (.insertJobRun i tasks n)
  | submit {c : Nat} {i : InsertJobRunInput} {tasks : List String} {n : Nat} :
      i.status = .scheduled → i.scheduleId = none →
      Writes (.client c) (.insertJobRun i tasks n)
  | submitTask {t : Tid} {i : InsertTaskRunInput} :
      Submits t → i.status = .planned → Writes t (.insertTaskRun i)
  | submitNotification {t : Tid} {i : InsertJobRunNotificationInput} :
      Submits t → i.status = .pending → Writes t (.insertJobRunNotification i)
  | endTaskRuns {t : Tid} {jobRunId : Nat} {status : TaskRunStatus} {now : Instant} :
      Releases t → status = .skipped ∨ status = .invalid →
      Writes t (.updateTaskRuns { jobRunId := some jobRunId }
        { status := some status, finishedAt := some (some now) })
  | endJobRun {t : Tid} {jobRunId : Nat} {status : JobRunStatus} {now : Instant} :
      Releases t → status = .skipped ∨ status = .invalid →
      Writes t (.updateJobRuns { id := some jobRunId }
        { status := some status, finishedAt := some (some now) })
  | queueJobRun {jobRunId : Nat} :
      Writes (.service .jobRunReleaser)
        (.updateJobRuns { id := some jobRunId } { status := some .queued })
  | releaseTaskRuns {jobRunId : Nat} :
      Writes (.service .jobRunDispatcher)
        (.updateTaskRuns { jobRunId := some jobRunId, status := some .planned }
          { status := some .waiting })
  | startJobRun {jobRunId : Nat} {now : Instant} :
      Writes (.service .jobRunDispatcher) (.updateJobRuns { id := some jobRunId }
        { status := some .running, startedAt := some (some now) })
  | settleJobRun {jobRunId : Nat} {status : JobRunStatus} {now : Instant} :
      status.isFinished = true → status ≠ .skipped → status ≠ .deleted →
      Writes (.service .jobRunMonitor) (.updateJobRuns { id := some jobRunId }
        { status := some status, finishedAt := some (some now) })
  | dropTaskRun {taskRunId : Nat} {status : TaskRunStatus} {now : Instant} :
      status = .skipped ∨ status = .invalid →
      Writes (.service .taskRunDispatcher) (.updateTaskRuns { id := some taskRunId }
        { status := some status, finishedAt := some (some now) })
  | startTaskRun {taskRunId : Nat} {now : Instant} :
      Writes (.service .taskRunDispatcher) (.updateTaskRuns { id := some taskRunId }
        { status := some .running, startedAt := some (some now) })
  | settleTaskRun {taskRunId : Nat} {status : TaskRunStatus} {now : Instant} :
      status.isFinished = true → status ≠ .skipped →
      Writes (.service .taskRunMonitor) (.updateTaskRuns { id := some taskRunId }
        { status := some status, finishedAt := some (some now) })
  | addAttempt {i : InsertTaskRunAttemptInput} :
      i.status = .queued → Writes (.service .taskRunMonitor) (.insertTaskRunAttempt i)
  | dropAttempt {taskRunAttemptId : Nat} {status : TaskRunAttemptStatus} {now : Instant} :
      status = .skipped ∨ status = .invalid →
      Writes (.service .taskRunAttemptDispatcher)
        (.updateTaskRunAttempts { id := some taskRunAttemptId }
          { status := some status, finishedAt := some (some now) })
  | markStarted {taskRunAttemptId : Nat} {startedAt : Option Instant} :
      Writes (.service .taskRunAttemptDispatcher)
        (.updateTaskRunAttempts { id := some taskRunAttemptId } { startedAt := some startedAt })
  | startAttempt {taskRunAttemptId processGroupId : Nat} :
      Writes (.service .taskRunAttemptDispatcher)
        (.updateTaskRunAttempts { id := some taskRunAttemptId }
          { status := some .running, processGroupId := some (some processGroupId) })
  | settleAttempt {taskRunAttemptId : Nat} {status : TaskRunAttemptStatus} {now : Instant}
      {output : Option String} :
      status.isFinished = true → status ≠ .skipped →
      Writes (.service .taskRunAttemptMonitor)
        (.updateTaskRunAttempts { id := some taskRunAttemptId }
          { status := some status, finishedAt := some (some now), output })
  | recoverAttempt {taskRunAttemptId : Nat} {now : Instant} :
      Writes (.service .recovery) (.updateTaskRunAttempts { id := some taskRunAttemptId }
        { status := some .invalid, finishedAt := some (some now) })
  | stop {c jobRunId : Nat} : Writes (.client c) (.insertJobRunStop jobRunId)
  | stopChild {t : Tid} {jobRunId : Nat} :
      t = .service .taskRunAttemptMonitor ∨ t = .service .recovery →
      Writes t (.insertJobRunStop jobRunId)
  | printOutput {i : InsertTaskRunAttemptOutputInput} :
      Writes (.service .taskRunAttemptMonitor) (.insertTaskRunAttemptOutput i)
  | wait {c taskRunAttemptId : Nat} {since : Option Instant} :
      Writes (.client c)
        (.updateTaskRunAttempts { id := some taskRunAttemptId, status := some .running }
          { waitingSince := some since })
  | delete {c jobRunId : Nat} {now : Instant} : Writes (.client c) (.deleteJobRun jobRunId now)
  | retain {jobRunId : Nat} :
      Writes (.service .retention) (.deleteJobRunsWithChildren { id := some jobRunId })
  | notify {id : Nat} {i : UpdateJobRunNotificationsInput} : i.status ≠ some .pending →
      Writes (.service .notifications) (.updateJobRunNotification id i)

/-- A child that was asked to exit will settle as one of these. -/
def EndsAs (ends : TaskRunAttemptStatus → Prop) (child : TaskRunAttemptChild) : Prop :=
  ∀ termination, child.terminating = some termination → ends termination.status

/-- A child that was asked to exit will settle timed out or aborted. -/
def EndsStopped : TaskRunAttemptChild → Prop :=
  EndsAs fun status => status = .timedOut ∨ status = .aborted

theorem endsStopped_none {child : TaskRunAttemptChild} (h : child.terminating = none) :
    EndsStopped child := by
  intro termination hterminating
  rw [h] at hterminating
  cases hterminating

/-- The operations a thread's code contains. -/
def Allowed (t : Tid) : Op → Prop
  | .write q => Writes t q
  | .spawn _ _ _ => t = .service .taskRunAttemptDispatcher
  | .childrenInsert _ child => EndsStopped child ∧
      (t = .service .taskRunAttemptDispatcher ∨ t = .service .taskRunAttemptMonitor)
  | .childrenRemove _ | .tryRecvAll _ | .recvUntilClosed _ | .abortReaders _
  | .terminateProcessGroup _ | .killProcessGroup _ => t = .service .taskRunAttemptMonitor
  | .killOrphan _ | .startServices => t = .service .recovery
  | .sendNotification _ _ _ _ => t = .service .notifications
  | _ => True

theorem updateTaskRunAttemptsFilter_holds {f : UpdateTaskRunAttemptsFilter} {x : TaskRunAttempt}
    {id : Nat} (hid : f.id = some id) (h : f.holds x = true) : x.id = id := by
  have := (Bool.and_eq_true_iff.mp (Bool.and_eq_true_iff.mp h).1).1
  simpa [hid] using this

/-- What an update that went through made of the attempt it names. -/
theorem updateTaskRunAttempts_row {lib : Library} {cond : (flowlite lib).Condition} {t : Tid}
    {id : Nat} {i : UpdateTaskRunAttemptsInput} {w w' : World} {a : Unit}
    (h : Performs cond t (.write (.updateTaskRunAttempts { id := some id } i)) w (.ok a) w')
    {x' : TaskRunAttempt} (hx' : w'.db.taskRunAttempts.find id = some x') :
    ∃ x, w.db.taskRunAttempts.find id = some x ∧ x' = i.patch.apply x := by
  obtain ⟨now, hrun⟩ := write_ok h
  simp only [Write.run, Option.some.injEq, Prod.mk.injEq, true_and] at hrun
  rw [← hrun, Database.updateTaskRunAttempts, Table.find_update] at hx'
  obtain ⟨x, hx, rfl⟩ := Option.map_eq_some_iff.mp hx'
  have hkey : x.id = id := Table.key_of_find hx
  exact ⟨x, hx, by simp [UpdateTaskRunAttemptsFilter.holds, hkey]⟩

/-- Every update of the attempt table names one attempt. -/
theorem updateTaskRunAttempts_id {t : Tid} {f : UpdateTaskRunAttemptsFilter}
    {i : UpdateTaskRunAttemptsInput} (h : Allowed t (.write (.updateTaskRunAttempts f i))) :
    ∃ id, f.id = some id := by
  cases h <;> exact ⟨_, rfl⟩

/-- A row a pass handles. -/
inductive Row
  | jobRun (id : Nat)
  | taskRun (id : Nat)
  | taskRunAttempt (id : Nat)

/-- Operations on the one row a pass is handling, as far as they are on any row of
that table. -/
def On : Row → Op → Prop
  | .jobRun id, .write (.updateJobRuns f _) => f.id = some id
  | .jobRun id, .write (.updateTaskRuns f _) => f.jobRunId = some id
  | .taskRun id, .write (.updateTaskRuns f _) => f.id = some id
  | .taskRun id, .write (.insertTaskRunAttempt i) => i.taskRunId = id
  | .taskRunAttempt id, .write (.updateTaskRunAttempts f _) => f.id = some id
  | .taskRunAttempt id, .write (.insertTaskRunAttemptOutput i) => i.taskRunAttemptId = id
  | .taskRunAttempt id, .spawn a _ _ => a = id
  | .taskRunAttempt id, .childrenInsert a _ => a = id
  | .taskRunAttempt id, .childrenRemove a => a = id
  | _, _ => True

/-- The operations of `t` while it handles `row`. -/
def Handles (t : Tid) (row : Row) (o : Op) : Prop := Allowed t o ∧ On row o

/-- The operations that leave everything but the log as it is. -/
def Silent : Op → Prop
  | .select _ | .selectMem | .now | .systemBootTime | .canonicalize _ | .pathExists _
  | .metadata _ | .readFile _ | .tryWait _ | .lastOutputAt _ | .processGroupIsGone _ => True
  | _ => False

/-- The question whether a run is stopped. -/
def AsksStop : Op → Prop
  | .select (.jobRunStops _ _) => True
  | _ => False

/-- Everything else that is read. -/
def Reads (o : Op) : Prop := Silent o ∧ ¬ AsksStop o

theorem Silent.allowed {o : Op} (h : Silent o) (t : Tid) : Allowed t o := by
  cases o <;> trivial

theorem Silent.handles {o : Op} (h : Silent o) (t : Tid) (row : Row) : Handles t row o := by
  refine ⟨h.allowed t, ?_⟩
  cases o <;> cases row <;> trivial

/-! ## Code that only reads -/

theorem uses_op {P : Op → Prop} {o : Op} (h : P o) : (Crud.perform o).Uses P :=
  (Prog.uses_perform _).mpr h

theorem uses_select {P : Op → Prop} {q : Query} (h : P (.select q)) : (select q).Uses P :=
  (Prog.uses_perform _).mpr h

theorem uses_write {P : Op → Prop} {q : Write} (h : P (.write q)) : (write q).Uses P :=
  (Prog.uses_perform _).mpr h

section Reads

open Prog

@[simp] theorem orBail_uses {α : Type} {P : Op → Prop} {text : String} {a : Option α} :
    (orBail text a).Uses P := by
  cases a <;> trivial

/-- One operation, and a pure function of what it answers. -/
theorem uses_map {P : Op → Prop} {o : Op} {β : Type} {f : o.Ret → β} (h : P o) :
    ((Crud.perform o).bind fun a => .ret (f a)).Uses P :=
  ((uses_perform _).mpr h).bind fun _ => uses_ret _

theorem Uses.silent {α : Type} {p : Code α} (h : p.Uses Reads) : p.Uses Silent :=
  h.mono fun _ ho => ho.1

theorem now_silent : now.Uses Silent := (uses_perform _).mpr trivial

theorem selectJobRuns_silent (q : SelectJobRuns) : (selectJobRuns q).Uses Silent :=
  uses_select trivial

theorem selectJobRun_reads (f : SelectJobRunsFilter) : (selectJobRun f).Uses Reads :=
  uses_map ⟨trivial, id⟩

theorem selectJobRun_silent (f : SelectJobRunsFilter) : (selectJobRun f).Uses Silent :=
  Uses.silent (selectJobRun_reads f)

theorem selectTaskRuns_silent (f : SelectTaskRunsFilter) : (selectTaskRuns f).Uses Silent :=
  uses_select trivial

theorem selectTaskRun_reads (f : SelectTaskRunsFilter) : (selectTaskRun f).Uses Reads :=
  uses_map ⟨trivial, id⟩

theorem selectTaskRun_silent (f : SelectTaskRunsFilter) : (selectTaskRun f).Uses Silent :=
  Uses.silent (selectTaskRun_reads f)

theorem selectTaskRunAttempts_silent (f : SelectTaskRunAttemptsFilter)
    (s : Option SelectTaskRunAttemptsSort) : (selectTaskRunAttempts f s).Uses Silent :=
  uses_select trivial

theorem selectJobRunStop_silent (id : Nat) : (selectJobRunStop id).Uses Silent :=
  uses_map trivial

theorem isJobRunStopped_silent (id : Nat) : (isJobRunStopped id).Uses Silent :=
  (selectJobRunStop_silent id).bind fun _ => uses_ret _

theorem selectJob_silent (config : Config) (jobId : String) :
    (selectJob config jobId).Uses Silent :=
  uses_map (o := .selectMem) trivial

theorem selectTasks_silent (config : Config) (jobId : String) :
    (selectTasks config jobId).Uses Silent :=
  uses_map (o := .selectMem) trivial

theorem getJobRun_silent (id : Nat) : (getJobRun id).Uses Silent :=
  (selectJobRun_silent _).bind fun _ => orBail_uses

theorem jobRunDir_reads (config : Config) (id : Nat) : (jobRunDir config id).Uses Reads :=
  uses_map (o := .canonicalize config.app.dataDir) ⟨trivial, fun h => h⟩

theorem jobRunDir_silent (config : Config) (id : Nat) : (jobRunDir config id).Uses Silent :=
  Uses.silent (jobRunDir_reads config id)

theorem resolveParentTaskRunAttempt_silent (parent : Option Nat) :
    (resolveParentTaskRunAttempt parent).Uses Silent := by
  cases parent with
  | none => trivial
  | some id =>
      refine (selectTaskRunAttempts_silent _ _).bind fun attempts => ?_
      split
      · trivial
      · split
        · trivial
        · refine (selectJobRunStop_silent _).bind fun stop => ?_
          split <;> trivial

theorem isJobAtMaxParallelRuns_silent (config : Config) (jobId : String) :
    (isJobAtMaxParallelRuns config jobId).Uses Silent := by
  refine (selectJob_silent config jobId).bind fun job => ?_
  split
  · trivial
  · split
    · trivial
    · exact (selectJobRuns_silent _).bind fun _ => uses_ret _

theorem selectRunningAttempts_reads : selectRunningAttempts.Uses Reads :=
  uses_select ⟨trivial, id⟩

theorem countRunningAttempts_reads : countRunningAttempts.Uses Reads :=
  selectRunningAttempts_reads.bind fun _ => uses_ret _

theorem claimedLimitSlots_reads : claimedLimitSlots.Uses Reads := by
  refine selectRunningAttempts_reads.bind fun _ => Uses.bind (Uses.collect fun a _ => ?_)
    fun _ => uses_ret _
  exact (selectTaskRun_reads _).bind fun _ => orBail_uses.bind fun _ => uses_ret _

theorem selectJobRunDescendants_silent (fuel : Nat) (parentIds : List Nat)
    (found : List JobRun) : (selectJobRunDescendants fuel parentIds found).Uses Silent := by
  induction fuel generalizing parentIds found with
  | zero => cases parentIds <;> trivial
  | succ fuel ih =>
      cases parentIds with
      | nil => trivial
      | cons parentId rest => exact (selectJobRuns_silent _).bind fun _ => ih _ _

end Reads

/-! ## Submitting -/

section Writes

open Prog

variable {t : Tid}

theorem Uses.allowed {α : Type} {p : Code α} (h : p.Uses Silent) : p.Uses (Allowed t) :=
  h.mono fun _ ho => ho.allowed t

theorem insertJobRunDefinition_allowed {d : JobRunDefinition} (ht : Submits t)
    (hd : ∀ tasks n, Writes t (.insertJobRun d.jobRunInput tasks n)) :
    (insertJobRunDefinition d).Uses (Allowed t) := by
  refine (uses_write (P := Allowed t) (hd _ _)).bind fun jobRunId => ?_
  refine Uses.bind (Uses.forEach fun task _ => ?_) fun _ =>
    Uses.bind (Uses.forEach fun n _ => ?_) fun _ => uses_ret _
  · exact (uses_write (P := Allowed t) (.submitTask ht rfl)).bind fun _ => uses_ret _
  · exact (uses_write (P := Allowed t) (.submitNotification ht rfl)).bind fun _ => uses_ret _

theorem submitScheduled_allowed (config : Config) (jobId : String)
    (overrides : BTreeMap String String) (scheduledAt : Instant) (scheduleId : String) :
    (submitJob config jobId overrides scheduledAt (some scheduleId) none).Uses
      (Allowed (.service .scheduler)) := by
  change ((selectJob config jobId).bind _).Uses _
  refine Uses.bind (Uses.allowed (selectJob_silent _ _)) fun job =>
    orBail_uses.bind fun job => (uses_ofExcept _).bind fun parameters =>
    Uses.bind (Uses.allowed (selectTasks_silent _ _)) fun tasks => ?_
  exact insertJobRunDefinition_allowed (.inl rfl) fun _ _ => .submitScheduled rfl rfl rfl

theorem submitJob_allowed {c : Nat} (config : Config) (jobId : String)
    (overrides : BTreeMap String String) (scheduledAt : Instant) (parent : Option Nat) :
    (submitJob config jobId overrides scheduledAt none parent).Uses (Allowed (.client c)) := by
  refine Uses.bind (Uses.allowed (resolveParentTaskRunAttempt_silent _)) fun parent =>
    Uses.bind (Uses.allowed (selectJob_silent _ _)) fun job =>
    orBail_uses.bind fun job => (uses_ofExcept _).bind fun parameters =>
    Uses.bind (Uses.allowed (selectTasks_silent _ _)) fun tasks => ?_
  exact insertJobRunDefinition_allowed (.inr ⟨c, rfl⟩) fun _ _ => .submit rfl rfl

theorem rerunJob_allowed {c : Nat} (jobRunId : Nat) (parent : Option Nat) :
    (rerunJob jobRunId parent).Uses (Allowed (.client c)) := by
  refine Uses.bind (Uses.allowed (resolveParentTaskRunAttempt_silent _)) fun parent =>
    Uses.bind (Uses.allowed (selectJobRun_silent _)) fun jobRun =>
    orBail_uses.bind fun jobRun =>
    Uses.bind (Uses.allowed (selectTaskRuns_silent _)) fun taskRuns =>
    (uses_select (P := Allowed (.client c)) trivial).bind fun notifications => ?_
  exact insertJobRunDefinition_allowed (.inr ⟨c, rfl⟩) fun _ _ => .submit rfl rfl

/-! ## Requests -/

theorem stopJobRun_allowed {c : Nat} (id : Nat) :
    (stopJobRun id).Uses (Allowed (.client c)) := by
  refine Uses.bind (Uses.allowed (getJobRun_silent id)) fun jobRun => ?_
  split
  · trivial
  · exact (uses_write (P := Allowed (.client c)) .stop).bind fun _ => uses_ret _

theorem deleteJobRun_allowed {c : Nat} (id : Nat) :
    (deleteJobRun id).Uses (Allowed (.client c)) := by
  refine Uses.bind (Uses.allowed (getJobRun_silent id)) fun jobRun => ?_
  split
  · trivial
  · refine Uses.bind (Uses.allowed now_silent) fun now =>
      (uses_write (P := Allowed (.client c)) .delete).bind fun deleted => ?_
    cases deleted
    · trivial
    · exact Uses.allowed (getJobRun_silent id)

theorem rerunJobRun_allowed {c : Nat} (id : Nat) (parent : Option Nat) :
    (rerunJobRun id parent).Uses (Allowed (.client c)) := by
  refine Uses.bind (Uses.allowed (getJobRun_silent id)) fun jobRun => ?_
  split
  · exact rerunJob_allowed id parent
  · exact Uses.bind (Uses.allowed now_silent) fun _ => uses_throw _

theorem request_allowed {c : Nat} (r : Request) : r.code.Uses (Allowed (.client c)) := by
  cases r with
  | submit config jobId overrides scheduledAt parent =>
      exact Uses.bind (submitJob_allowed ..) fun _ => uses_ret _
  | rerun id parent => exact Uses.bind (rerunJobRun_allowed ..) fun _ => uses_ret _
  | stop id => exact stopJobRun_allowed id
  | delete id => exact Uses.bind (deleteJobRun_allowed id) fun _ => uses_ret _
  | waiting id since =>
      exact Uses.bind (uses_write (P := Allowed (.client c)) .wait).attempt fun _ => uses_ret _

/-! ## Submitting, part by part -/

section Submitting

variable {P : Op → Prop} {Φ : ∀ α : Type, Code α → Prop}

theorem submitJob_walk (hw : Walk P Φ Φ) (hsilent : ∀ o, Silent o → P o)
    (hinsert : ∀ d, Φ Nat (insertJobRunDefinition d)) (config : Config) (jobId : String)
    (overrides : BTreeMap String String) (scheduledAt : Instant) (scheduleId : Option String)
    (parent : Option Nat) :
    Φ Nat (submitJob config jobId overrides scheduledAt scheduleId parent) :=
  hw.bind (hw.uses ((resolveParentTaskRunAttempt_silent _).mono hsilent)) fun _ =>
    hw.bind (hw.uses ((selectJob_silent _ _).mono hsilent)) fun _ =>
    hw.bind (hw.uses orBail_uses) fun _ => hw.bind (hw.uses (uses_ofExcept _)) fun _ =>
    hw.bind (hw.uses ((selectTasks_silent _ _).mono hsilent)) fun _ => hinsert _

theorem rerunJobRun_walk (hw : Walk P Φ Φ) (hsilent : ∀ o, Silent o → P o)
    (hinsert : ∀ d, Φ Nat (insertJobRunDefinition d)) (jobRunId : Nat) (parent : Option Nat) :
    Φ Nat (rerunJobRun jobRunId parent) := by
  refine hw.bind (hw.uses ((getJobRun_silent _).mono hsilent)) fun jobRun => ?_
  split
  · exact hw.bind (hw.uses ((resolveParentTaskRunAttempt_silent _).mono hsilent)) fun _ =>
      hw.bind (hw.uses ((selectJobRun_silent _).mono hsilent)) fun _ =>
      hw.bind (hw.uses orBail_uses) fun _ =>
      hw.bind (hw.uses ((selectTaskRuns_silent _).mono hsilent)) fun _ =>
      hw.bind (hw.uses (uses_select (hsilent _ trivial))) fun _ => hinsert _
  · exact hw.uses (Uses.bind (now_silent.mono hsilent) fun _ => uses_throw _)

/-- The scheduler submits, and reads. -/
theorem scheduler_walk (hw : Walk P Φ Φ) (hsilent : ∀ o, Silent o → P o)
    (hinsert : ∀ d, Φ Nat (insertJobRunDefinition d)) (lib : Library) (config : Config) :
    Φ Unit (Scheduler.poller lib config).pass := by
  have hmem : ∀ {α : Type} (f : Unit → α), Φ α ((Crud.perform .selectMem).bind fun a => .ret (f a)) :=
    fun f => hw.uses (uses_map (o := .selectMem) (hsilent _ trivial))
  refine hw.bind (hmem _) fun schedules => hw.forEach fun schedule _ =>
    hw.bind (hw.attempt ?_) fun _ => hw.ret _
  refine hw.bind (hw.uses (now_silent.mono hsilent)) fun now => hw.bind (hmem _) fun _ =>
    hw.forEach fun occurrence _ => hw.forEach fun scheduleJob _ =>
    hw.bind (hw.uses ((selectJobRun_silent _).mono hsilent)) fun existing => ?_
  split
  · exact hw.ret _
  · exact hw.bind (hw.attempt (submitJob_walk hw hsilent hinsert _ _ _ _ _ _)) fun _ => hw.ret _

/-- What a request does: it submits, stops, deletes or stamps. -/
theorem request_walk (hw : Walk P Φ Φ) (hsilent : ∀ o, Silent o → P o)
    (hinsert : ∀ d, Φ Nat (insertJobRunDefinition d))
    (hstop : ∀ id, P (.write (.insertJobRunStop id)))
    (hdelete : ∀ id at', P (.write (.deleteJobRun id at')))
    (hwait : ∀ id since, P (.write (.updateTaskRunAttempts { id := some id, status := some .running }
      { waitingSince := some since }))) (r : Request) : Φ Unit r.code := by
  have hget : ∀ id, Φ JobRun (getJobRun id) := fun id => hw.uses ((getJobRun_silent id).mono hsilent)
  cases r with
  | submit config jobId overrides scheduledAt parent =>
      exact hw.bind (submitJob_walk hw hsilent hinsert _ _ _ _ _ _) fun _ => hw.ret _
  | rerun id parent =>
      exact hw.bind (rerunJobRun_walk hw hsilent hinsert _ _) fun _ => hw.ret _
  | stop id =>
      refine hw.bind (hget id) fun jobRun => ?_
      split
      · exact hw.throw _
      · exact hw.bind (hw.perform _ (hstop id)) fun _ => hw.ret _
  | delete id =>
      refine hw.bind (hw.bind (hget id) fun jobRun => ?_) fun _ => hw.ret _
      split
      · exact hw.throw _
      · refine hw.bind (hw.uses (now_silent.mono hsilent)) fun now =>
          hw.bind (hw.perform _ (hdelete id now)) fun deleted => ?_
        cases deleted
        · exact hw.throw _
        · exact hget id
  | waiting id since =>
      exact hw.bind (hw.attempt (hw.perform _ (hwait id since))) fun _ => hw.ret _

end Submitting

theorem Uses.handles {α : Type} {p : Code α} {row : Row} (h : p.Uses Silent) :
    p.Uses (Handles t row) :=
  h.mono fun _ ho => ho.handles t row

theorem uses_handles {q : Write} (row : Row) (h : Writes t q) (hon : On row (.write q)) :
    (write q).Uses (Handles t row) :=
  uses_write ⟨h, hon⟩

/-! ## Job runs -/

theorem Poller.pass_uses {P : Op → Prop} {p : Poller} (hselect : p.select.Uses P)
    (hhandle : ∀ row, (p.handle row).Uses P) : p.pass.Uses P :=
  hselect.bind fun _ => Uses.forEach fun row _ =>
    Uses.bind (hhandle row).attempt fun _ => uses_ret _

theorem settleUnstarted_handles (ht : Releases t) {ts : TaskRunStatus} {js : JobRunStatus}
    (hts : ts = .skipped ∨ ts = .invalid) (hjs : js = .skipped ∨ js = .invalid) (id : Nat) :
    (settleUnstarted ts js id).Uses (Handles t (.jobRun id)) :=
  Uses.bind (Uses.handles now_silent) fun _ =>
    (uses_handles (.jobRun id) (.endTaskRuns ht hts) rfl).bind fun _ => uses_handles (.jobRun id) (.endJobRun ht hjs) rfl

theorem skipJobRun_handles (ht : Releases t) (id : Nat) :
    (skipJobRun id).Uses (Handles t (.jobRun id)) :=
  settleUnstarted_handles ht (.inl rfl) (.inl rfl) id

theorem invalidateJobRun_handles (ht : Releases t) (id : Nat) :
    (invalidateJobRun id).Uses (Handles t (.jobRun id)) :=
  settleUnstarted_handles ht (.inr rfl) (.inr rfl) id

theorem jobRunReleaser_derives (r : JobRun) :
    (JobRunReleaser.deriveNextStatus r).Uses Silent :=
  (isJobRunStopped_silent _).bind fun _ => now_silent.bind fun _ => uses_ret _

theorem jobRunReleaser_handles (r : JobRun) :
    (JobRunReleaser.handleScheduledJobRun r).Uses
      (Handles (.service .jobRunReleaser) (.jobRun r.id)) := by
  refine Uses.bind (Uses.handles (jobRunReleaser_derives r)) fun status => ?_
  split
  · exact skipJobRun_handles (.inl rfl) _
  · exact uses_handles (.jobRun r.id) .queueJobRun rfl
  · trivial
  · exact invalidateJobRun_handles (.inl rfl) _

theorem createJobRunDir_uses {P : Op → Prop} (hsilent : ∀ o, Silent o → P o)
    (hdir : ∀ path, P (.createDirAll path)) (config : Config) (id : Nat) :
    (createJobRunDir config id).Uses P :=
  ((jobRunDir_silent _ _).mono hsilent).bind fun _ =>
    Uses.bind ((uses_perform _).mpr (hdir _)) fun _ =>
    Uses.bind ((uses_perform _).mpr (hdir _)) fun _ => uses_ret _

theorem jobRunDispatcher_derives (config : Config) (r : JobRun) :
    (JobRunDispatcher.deriveNextStatus config r).Uses Silent := by
  refine (isJobRunStopped_silent _).bind fun _ => ?_
  split
  · trivial
  · exact (isJobAtMaxParallelRuns_silent _ _).bind fun _ => uses_ret _

theorem jobRunDispatcher_handles (config : Config) (r : JobRun) :
    (JobRunDispatcher.handleQueuedJobRun config r).Uses
      (Handles (.service .jobRunDispatcher) (.jobRun r.id)) := by
  refine Uses.bind (Uses.handles (jobRunDispatcher_derives config r)) fun status => ?_
  split
  · exact skipJobRun_handles (.inr rfl) _
  · trivial
  · refine Uses.bind (createJobRunDir_uses (P := Handles _ (.jobRun r.id)) (fun _ h => h.handles _ _) (fun _ => ⟨trivial, trivial⟩) _ _) fun _ =>
      (uses_handles (.jobRun r.id) .releaseTaskRuns rfl).bind fun _ =>
      Uses.bind (Uses.handles now_silent) fun _ => uses_handles (.jobRun r.id) .startJobRun rfl
  · exact invalidateJobRun_handles (.inr rfl) _

theorem jobRunMonitor_handles (r : JobRun) :
    (JobRunMonitor.handleRunningJobRun r).Uses (Handles (.service .jobRunMonitor) (.jobRun r.id)) := by
  have hupdate : ∀ status : JobRunStatus, status.isFinished = true → status ≠ .skipped →
      status ≠ .deleted →
      (JobRunMonitor.updateJobRunStatus r status).Uses (Handles (.service .jobRunMonitor) (.jobRun r.id)) :=
    fun status h₁ h₂ h₃ => Uses.bind (Uses.handles now_silent) fun _ =>
      uses_handles (.jobRun r.id) (.settleJobRun h₁ h₂ h₃) rfl
  refine Uses.bind (Uses.handles (selectTaskRuns_silent _)) fun taskRuns => ?_
  split
  · exact hupdate _ rfl nofun nofun
  · exact hupdate _ rfl nofun nofun
  · exact hupdate _ rfl nofun nofun
  · exact hupdate _ rfl nofun nofun
  · trivial
  · exact hupdate _ rfl nofun nofun

/-! ## Task runs -/

theorem taskRunDispatcher_derives (r : TaskRun) :
    (TaskRunDispatcher.deriveNextStatus r).Uses Silent := by
  refine Uses.bind (Uses.collect fun _ _ => ?_) fun _ =>
    Uses.bind ((isJobRunStopped_silent _).bind fun _ => uses_ret _) fun _ => uses_ret _
  exact (selectTaskRun_silent _).bind fun _ => orBail_uses

theorem taskRunDispatcher_handles (r : TaskRun) :
    (TaskRunDispatcher.handleWaitingTaskRun r).Uses
      (Handles (.service .taskRunDispatcher) (.taskRun r.id)) := by
  have hsettle : ∀ status : TaskRunStatus, status = .skipped ∨ status = .invalid →
      (TaskRunDispatcher.settle r status).Uses (Handles (.service .taskRunDispatcher) (.taskRun r.id)) :=
    fun status h => Uses.bind (Uses.handles now_silent) fun _ =>
      uses_handles (.taskRun r.id) (.dropTaskRun h) rfl
  refine Uses.bind (Uses.handles (taskRunDispatcher_derives r)) fun status => ?_
  split
  · exact hsettle _ (.inl rfl)
  · trivial
  · exact Uses.bind (Uses.handles now_silent) fun _ => uses_handles (.taskRun r.id) .startTaskRun rfl
  · exact hsettle _ (.inr rfl)

/-- Reads, the attempts a running task run is given, and the status it settles with. -/
theorem taskRunMonitor_uses {P : Op → Prop} (hsilent : ∀ o, Silent o → P o) (r : TaskRun)
    (hinsert : ∀ n, P (.write (.insertTaskRunAttempt (TaskRunMonitor.attemptInput r n))))
    (hsettle : ∀ now (status : TaskRunStatus), status.isFinished = true → status ≠ .skipped →
      P (.write (.updateTaskRuns { id := some r.id }
        { status := some status, finishedAt := some (some now) }))) :
    (TaskRunMonitor.handleRunningTaskRun r).Uses P := by
  have hlast : (TaskRunMonitor.selectLastTaskRunAttempt r).Uses P :=
    Uses.bind ((selectTaskRunAttempts_silent _ _).mono hsilent) fun _ => uses_ret _
  have hupdate : ∀ status : TaskRunStatus, status.isFinished = true → status ≠ .skipped →
      (TaskRunMonitor.updateTaskRunStatus r status).Uses P :=
    fun status h₁ h₂ => Uses.bind (now_silent.mono hsilent) fun _ =>
      uses_write (hsettle _ status h₁ h₂)
  refine Uses.bind ?_ fun attempt => Uses.bind ?_ fun status => ?_
  · refine Uses.bind hlast fun last => ?_
    split
    · trivial
    · exact (uses_write (hinsert 1)).bind fun _ => hlast.bind fun _ => orBail_uses
  · unfold TaskRunMonitor.deriveNextStatus
    split_ifs
    all_goals first
      | trivial
      | exact Uses.bind ((uses_write (hinsert _)).bind fun _ => uses_ret _) fun _ => uses_ret _
  · split
    · exact hupdate _ rfl nofun
    · exact hupdate _ rfl nofun
    · exact hupdate _ rfl nofun
    · exact hupdate _ rfl nofun
    · trivial
    · exact hupdate _ rfl nofun

theorem taskRunMonitor_handles (r : TaskRun) :
    (TaskRunMonitor.handleRunningTaskRun r).Uses
      (Handles (.service .taskRunMonitor) (.taskRun r.id)) :=
  taskRunMonitor_uses (fun _ h => h.handles _ _) r (fun _ => ⟨.addAttempt rfl, rfl⟩)
    fun _ _ h₁ h₂ => ⟨.settleTaskRun h₁ h₂, rfl⟩

/-! ## Attempts -/

namespace TaskRunAttemptDispatcher

/-- The dispatcher's own thread. -/
abbrev thread : Tid := .service .taskRunAttemptDispatcher

theorem getTaskRun_reads (a : TaskRunAttempt) : (getTaskRun a).Uses Reads :=
  (selectTaskRun_reads _).bind fun _ => orBail_uses

theorem isWaitingToRetry_reads (a : TaskRunAttempt) : (isWaitingToRetry a).Uses Reads := by
  unfold isWaitingToRetry
  split
  · exact (getTaskRun_reads a).bind fun _ => Uses.bind (uses_op ⟨trivial, id⟩) fun _ => uses_ret _
  · trivial

theorem shouldStayQueued_reads (config : Config) (a : TaskRunAttempt) :
    (shouldStayQueued config a).Uses Reads := by
  refine Uses.bind (isWaitingToRetry_reads a) fun isWaiting => ?_
  split
  · trivial
  refine Uses.bind ?_ fun isAtMax => ?_
  · unfold isAtMaxRunningAttempts
    split
    · exact countRunningAttempts_reads.bind fun _ => uses_ret _
    · trivial
  split
  · trivial
  refine (getTaskRun_reads a).bind fun taskRun => ?_
  split
  · trivial
  · exact claimedLimitSlots_reads.bind fun _ => uses_ret _

theorem deriveNextStatus_silent (config : Config) (a : TaskRunAttempt) :
    (deriveNextStatus config a).Uses Silent := by
  unfold deriveNextStatus
  split
  · trivial
  · refine (isJobRunStopped_silent _).bind fun isStopped => ?_
    split
    · trivial
    · exact Uses.bind (Uses.silent (shouldStayQueued_reads config a)) fun _ => uses_ret _

theorem getInputs_reads (taskRun : TaskRun) (dir : String) :
    (getInputs taskRun dir).Uses Reads := by
  unfold getInputs
  split
  · trivial
  · exact Uses.bind ((uses_select ⟨trivial, id⟩).bind fun _ => uses_ret _) fun _ => uses_ret _

/-- Reads, and the files a retry is handed. -/
theorem writePreviousAttemptFiles_uses {P : Op → Prop} (hreads : ∀ o, Reads o → P o)
    (hfile : ∀ path content, P (.writeFile path content)) (a : TaskRunAttempt) (dir : String) :
    (writePreviousAttemptFiles a dir).Uses P := by
  unfold writePreviousAttemptFiles
  split
  · trivial
  · exact Uses.bind (uses_select (hreads _ ⟨trivial, id⟩)) fun _ =>
      orBail_uses.bind fun _ => (uses_select (hreads _ ⟨trivial, id⟩)).bind fun _ =>
      Uses.bind ((uses_perform _).mpr (hfile _ _)) fun _ =>
      Uses.bind ((uses_perform _).mpr (hreads _ ⟨trivial, id⟩)) fun _ => uses_ret _

theorem prepare_uses {P : Op → Prop} (hreads : ∀ o, Reads o → P o)
    (hfile : ∀ path content, P (.writeFile path content)) (lib : Library) (config : Config)
    (a : TaskRunAttempt) : (prepare lib config a).Uses P := by
  have reads : ∀ {α : Type} {p : Code α}, p.Uses Reads → p.Uses P :=
    fun h => h.mono hreads
  exact Uses.bind (reads (getTaskRun_reads a)) fun taskRun =>
    Uses.bind (reads ((selectJobRun_reads _).bind fun _ => orBail_uses)) fun jobRun =>
    Uses.bind (reads (jobRunDir_reads _ _)) fun dir =>
    Uses.bind (reads (getInputs_reads _ _)) fun inputs =>
    Uses.bind (writePreviousAttemptFiles_uses hreads hfile a dir) fun previous =>
    (uses_ofExcept _).bind fun env => uses_ret _

/-- What a pass does with a queued attempt: what it prepares, its stamps, its spawn and its
child; and if its status is written, that comes last. -/
theorem handle_walk_of_prepare {P : Op → Prop} {Φ Ψ : ∀ α : Type, Code α → Prop}
    (hw : Walk P Φ Ψ) (hsilent : ∀ o, Silent o → P o) (lib : Library) (config : Config)
    (a : TaskRunAttempt) (hprepare : Φ _ (prepare lib config a))
    (hmark : ∀ startedAt, P (.write (.updateTaskRunAttempts { id := some a.id }
      { startedAt := some startedAt })))
    (hspawn : ∀ command startedAt, P (.spawn a.id command startedAt))
    (hinsert : ∀ child, child.terminating = none → P (.childrenInsert a.id child))
    (hsettle : ∀ now status, status = .skipped ∨ status = .invalid →
      Ψ _ (write (.updateTaskRunAttempts { id := some a.id }
        { status := some status, finishedAt := some (some now) })))
    (hstart : ∀ processGroupId, Ψ _ (write (.updateTaskRunAttempts { id := some a.id }
      { status := some .running, processGroupId := some (some processGroupId) }))) :
    Ψ _ (handleQueuedTaskRunAttempt lib config a) := by
  have hnow : Φ _ now := hw.uses (now_silent.mono hsilent)
  have hend : ∀ status, status = .skipped ∨ status = .invalid → Ψ _ (settle a status) :=
    fun status h => hw.seq hnow fun now => hsettle now status h
  have hupdate : ∀ startedAt, Φ _ (updateStartedAt a startedAt) :=
    fun startedAt => hw.perform _ (hmark startedAt)
  refine hw.seq (hw.uses ((deriveNextStatus_silent config a).mono hsilent)) fun status => ?_
  split
  · exact hend _ (.inr rfl)
  · exact hend _ (.inl rfl)
  · exact hw.last (hw.ret _)
  · refine hw.seq hprepare fun (taskRun, command) =>
      hw.seq hnow fun startedAt => hw.seq (hupdate _) fun _ =>
      hw.seq (hw.attempt (hw.perform _ (hspawn command startedAt))) fun spawned => ?_
    split
    · exact hw.seq (hupdate _) fun _ => hw.last (hw.throw _)
    · exact hw.seq (hw.perform _ (hinsert (childOf _ _ _) rfl)) fun _ => hstart _
  · exact hend _ (.inr rfl)

/-- The same for code that may write any file. -/
theorem handle_walk {P : Op → Prop} {Φ Ψ : ∀ α : Type, Code α → Prop} (hw : Walk P Φ Ψ)
    (hsilent : ∀ o, Silent o → P o) (hfile : ∀ path content, P (.writeFile path content))
    (lib : Library) (config : Config) (a : TaskRunAttempt)
    (hmark : ∀ startedAt, P (.write (.updateTaskRunAttempts { id := some a.id }
      { startedAt := some startedAt })))
    (hspawn : ∀ command startedAt, P (.spawn a.id command startedAt))
    (hinsert : ∀ child, child.terminating = none → P (.childrenInsert a.id child))
    (hsettle : ∀ now status, status = .skipped ∨ status = .invalid →
      Ψ _ (write (.updateTaskRunAttempts { id := some a.id }
        { status := some status, finishedAt := some (some now) })))
    (hstart : ∀ processGroupId, Ψ _ (write (.updateTaskRunAttempts { id := some a.id }
      { status := some .running, processGroupId := some (some processGroupId) }))) :
    Ψ _ (handleQueuedTaskRunAttempt lib config a) :=
  handle_walk_of_prepare hw hsilent lib config a
    (hw.uses (prepare_uses (fun _ h => hsilent _ h.1) hfile lib config a)) hmark hspawn hinsert
    hsettle hstart

theorem handles (lib : Library) (config : Config) (a : TaskRunAttempt) :
    (handleQueuedTaskRunAttempt lib config a).Uses
      (Handles (.service .taskRunAttemptDispatcher) (.taskRunAttempt a.id)) :=
  handle_walk (Uses.walk (S := flowliteOps)
      (Handles (.service .taskRunAttemptDispatcher) (.taskRunAttempt a.id)))
    (fun _ h => h.handles _ _) (fun _ _ => ⟨trivial, trivial⟩) lib config a
    (fun _ => ⟨.markStarted, rfl⟩) (fun _ _ => ⟨rfl, rfl⟩)
    (fun _ h => ⟨⟨endsStopped_none h, .inl rfl⟩, rfl⟩)
    (fun _ _ h => uses_handles (.taskRunAttempt a.id) (.dropAttempt h) rfl)
    fun _ => uses_handles (.taskRunAttempt a.id) .startAttempt rfl

end TaskRunAttemptDispatcher

/-- Reads, and a stop for each child that needs one. -/
theorem stopChildJobRuns_uses {P : Op → Prop} (hsilent : ∀ o, Silent o → P o)
    (hstop : ∀ id, P (.write (.insertJobRunStop id))) (a : TaskRunAttempt) :
    (stopChildJobRuns a).Uses P := by
  refine ((selectJobRuns_silent _).mono hsilent).bind fun children =>
    Uses.forEach fun child _ => ((selectJobRunStop_silent _).mono hsilent).bind fun stop => ?_
  split
  · trivial
  · exact (uses_write (hstop _)).bind fun _ => uses_ret _

namespace TaskRunAttemptMonitor

/-- The monitor's own thread. -/
abbrev thread : Tid := .service .taskRunAttemptMonitor

theorem insertOutput_uses {P : Op → Prop}
    (a : TaskRunAttempt) (houtput : ∀ stream content,
      P (.write (.insertTaskRunAttemptOutput (outputInput a stream content))))
    (stdout stderr : String) : (insertOutput a stdout stderr).Uses P := by
  refine Uses.forEach fun (stream, content) _ => ?_
  dsimp only
  split
  · trivial
  · exact (uses_write (houtput _ _)).bind fun _ => uses_ret _

/-- flowlite's own lines go to stderr. -/
theorem insertOutput_stderr (a : TaskRunAttempt) (text : String) : insertOutput a "" text =
    if text = "" then .ret () else
      ((insertTaskRunAttemptOutput (outputInput a .stderr text)).bind fun _ => .ret ()).bind
        fun _ => .ret () := by
  unfold insertOutput Prog.forEach Prog.forEach Prog.forEach
  by_cases htext : text = ""
  · simp only [htext, if_true]
    rfl
  · simp only [htext, if_true, if_false]
    rfl

theorem finishReading_uses {P : Op → Prop}
    (a : TaskRunAttempt) (houtput : ∀ stream content,
      P (.write (.insertTaskRunAttemptOutput (outputInput a stream content))))
    (child : TaskRunAttemptChild) (hrecv : P (.recvUntilClosed child.process))
    (habort : P (.abortReaders child.process)) : (finishReading a child).Uses P := by
  refine Uses.bind ((uses_perform _).mpr hrecv) fun (chunks, closed) => ?_
  dsimp only
  split
  · exact insertOutput_uses _ houtput _ _
  · exact Uses.bind ((uses_perform _).mpr habort) fun _ => insertOutput_uses _ houtput _ _

theorem recordOutput_uses {P : Op → Prop}
    (a : TaskRunAttempt) (houtput : ∀ stream content,
      P (.write (.insertTaskRunAttemptOutput (outputInput a stream content))))
    (child : TaskRunAttemptChild) (hrecv : P (.tryRecvAll child.process)) :
    (recordOutput a child).Uses P :=
  Uses.bind ((uses_perform _).mpr hrecv) fun _ => insertOutput_uses _ houtput _ _

theorem noteTimeout_uses {P : Op → Prop} (hsilent : ∀ o, Silent o → P o) (a : TaskRunAttempt)
    (houtput : ∀ stream content,
      P (.write (.insertTaskRunAttemptOutput (outputInput a stream content))))
    (child : TaskRunAttemptChild) (status : TaskRunAttemptStatus) :
    (noteTimeout a child status).Uses P := by
  unfold noteTimeout
  split
  · exact (now_silent.mono hsilent).bind fun _ => insertOutput_uses _ houtput _ _
  · trivial

theorem finishTaskRunAttempt_uses {P : Op → Prop} (hsilent : ∀ o, Silent o → P o)
    (hstop : ∀ id, P (.write (.insertJobRunStop id))) (a : TaskRunAttempt)
    (status : TaskRunAttemptStatus) (output : Option String)
    (hsettle : ∀ now, P (.write (.updateTaskRunAttempts { id := some a.id }
      { status := some status, finishedAt := some (some now), output }))) :
    (finishTaskRunAttempt a status output).Uses P := by
  refine Uses.bind ?_ fun _ => (now_silent.mono hsilent).bind fun now => uses_write (hsettle now)
  unfold stopUnlessSucceeded
  split
  · trivial
  · exact stopChildJobRuns_uses hsilent hstop a

theorem readTaskOutput_silent (config : Config) (a : TaskRunAttempt) :
    (readTaskOutput config a).Uses Silent := by
  refine (jobRunDir_silent _ _).attempt.bind fun dir => ?_
  split
  · trivial
  refine Uses.bind (Uses.attempt ((uses_perform _).mpr trivial)) fun metadata => ?_
  split
  · trivial
  · trivial
  split
  · trivial
  refine Uses.bind (Uses.attempt ((uses_perform _).mpr trivial)) fun bytes => ?_
  split
  · trivial
  · split <;> trivial

theorem deriveNextStatus_silent (a : TaskRunAttempt) (child : TaskRunAttemptChild) :
    (deriveNextStatus a child).Uses Silent := by
  refine Uses.bind ((uses_perform _).mpr trivial) fun exited => ?_
  split
  · trivial
  refine now_silent.bind fun wallNow => ?_
  split
  · trivial
  refine now_silent.bind fun idleNow => Uses.bind ((uses_perform _).mpr trivial) fun last => ?_
  split
  · trivial
  · exact (isJobRunStopped_silent _).bind fun _ => uses_ret _

/-- What a pass does with a child it took out of the map: the child goes back in,
is read from, signalled and aborted; output goes in; and if the attempt is settled,
that comes last. -/
theorem held_walk {P : Op → Prop} {Φ Ψ : ∀ α : Type, Code α → Prop} (hw : Walk P Φ Ψ)
    (hsilent : ∀ o, Silent o → P o)
    (hprocess : ∀ n, P (.tryRecvAll n) ∧ P (.recvUntilClosed n) ∧ P (.abortReaders n) ∧
      P (.terminateProcessGroup n) ∧ P (.killProcessGroup n))
    (config : Config) (a : TaskRunAttempt)
    (houtput : ∀ stream content,
      P (.write (.insertTaskRunAttemptOutput (outputInput a stream content))))
    (ends : TaskRunAttemptStatus → Prop) (hends : ends .timedOut ∧ ends .aborted)
    (hinsert : ∀ child, EndsAs ends child → P (.childrenInsert a.id child))
    (hfinish : ∀ status output, ends status ∨ status = .succeeded ∨ status = .failed ∨
      status = .invalid → Ψ _ (finishTaskRunAttempt a status output))
    (child : TaskRunAttemptChild) (hchild : EndsAs ends child) :
    Ψ _ (match child.terminating with
      | some termination => handleTerminating a child termination
      | none => handleChild config a child) := by
  have hnow : Φ _ now := hw.uses (now_silent.mono hsilent)
  have hread : ∀ child, Φ _ (finishReading a child) := fun child =>
    hw.uses (finishReading_uses a houtput child (hprocess _).2.1 (hprocess _).2.2.1)
  have hterminate : ∀ child status, ends status → Ψ _ (finishTermination a child status) :=
    fun child status hstatus => hw.seq (hw.perform _ (hprocess _).2.2.2.2) fun _ =>
      hw.seq (hread child) fun _ => hfinish _ _ (.inl hstatus)
  have hback : ∀ child, EndsAs ends child → Ψ _ (recordAndPutBack a child) := fun child h =>
    hw.last (hw.uses (Prog.Uses.bind (recordOutput_uses a houtput child (hprocess _).1).attempt
      fun _ => Prog.Uses.bind ((uses_perform _).mpr (hinsert _ h)) fun _ => uses_ofExcept _))
  have hbegin : ∀ child status, ends status → Ψ _ (beginTermination config a child status) := by
    intro child status hstatus
    refine hw.seq (hw.uses (noteTimeout_uses hsilent a houtput child status)) fun _ => ?_
    split
    · exact hterminate child status hstatus
    · refine hw.seq (hw.perform _ (hprocess _).2.2.2.1) fun _ => hw.seq hnow fun _ => hback _ ?_
      rintro termination ⟨⟩
      exact hstatus
  split
  · rename_i termination hterminating
    refine hw.seq hnow fun now => ?_
    split
    · exact hterminate _ _ (hchild _ hterminating)
    · refine hw.seq (hw.perform (.processGroupIsGone child.process) (hsilent _ trivial)) fun isGone => ?_
      split
      · exact hterminate _ _ (hchild _ hterminating)
      · exact hback _ hchild
  · refine hw.seq (hw.attempt (hw.uses ((deriveNextStatus_silent a _).mono hsilent)))
      fun status => ?_
    split
    · refine hw.seq (hread _) fun _ =>
        hw.seq (hw.uses ((readTaskOutput_silent config a).mono hsilent)) fun output => ?_
      split
      · exact hfinish _ _ (by simp)
      · exact hw.seq (hw.uses (insertOutput_uses _ houtput _ _)) fun _ => hfinish _ _ (by simp)
    · exact hw.seq (hread _) fun _ => hfinish _ _ (by simp)
    · exact hbegin _ _ hends.1
    · exact hbegin _ _ hends.2
    · exact hback _ hchild
    · exact hw.seq (hw.perform _ (hprocess _).2.2.2.2) fun _ =>
        hw.seq (hread _) fun _ => hfinish _ _ (by simp)
    · exact hw.seq (hw.perform _ (hinsert _ hchild)) fun _ => hw.last (hw.throw _)

theorem ends_finished {status : TaskRunAttemptStatus}
    (h : (status = .timedOut ∨ status = .aborted) ∨ status = .succeeded ∨ status = .failed ∨
      status = .invalid) : status.isFinished = true ∧ status ≠ .skipped := by
  rcases h with (rfl | rfl) | rfl | rfl | rfl <;> exact ⟨rfl, nofun⟩

theorem held_handles (config : Config) (a : TaskRunAttempt) (child : TaskRunAttemptChild)
    (hchild : EndsStopped child) :
    (match child.terminating with
      | some termination => handleTerminating a child termination
      | none => handleChild config a child).Uses (Handles thread (.taskRunAttempt a.id)) :=
  have hsilent : ∀ o, Silent o → Handles thread (.taskRunAttempt a.id) o := fun _ h => h.handles _ _
  held_walk (Uses.walk (S := flowliteOps) (Handles thread (.taskRunAttempt a.id))) hsilent
    (fun _ => ⟨⟨rfl, trivial⟩, ⟨rfl, trivial⟩, ⟨rfl, trivial⟩, ⟨rfl, trivial⟩, rfl, trivial⟩)
    config a (fun _ _ => ⟨.printOutput, rfl⟩) _ ⟨.inl rfl, .inr rfl⟩
    (fun _ h => ⟨⟨h, .inr rfl⟩, rfl⟩)
    (fun status output h => finishTaskRunAttempt_uses hsilent
      (fun _ => ⟨.stopChild (.inl rfl), trivial⟩) a status output
      fun _ => ⟨.settleAttempt (ends_finished h).1 (ends_finished h).2, rfl⟩) child hchild

/-- Whatever the map answers, the monitor keeps to the attempt it is at. -/
theorem handle_on (config : Config) (a : TaskRunAttempt) :
    (handleRunningTaskRunAttempt config a).Uses fun o : Op =>
      On (.taskRunAttempt a.id) o ∧ o ≠ .startServices := by
  have hsilent : ∀ o, Silent o → On (.taskRunAttempt a.id) o ∧ o ≠ .startServices :=
    fun o h => ⟨(h.handles thread _).2, by rintro rfl; exact h⟩
  have hfinish : ∀ status output, (finishTaskRunAttempt a status output).Uses fun o : Op =>
      On (.taskRunAttempt a.id) o ∧ o ≠ .startServices :=
    fun status output => finishTaskRunAttempt_uses hsilent (fun _ => ⟨trivial, nofun⟩) a status
      output fun _ => ⟨rfl, nofun⟩
  refine Uses.bind ((uses_perform _).mpr ⟨rfl, nofun⟩) fun child => ?_
  cases child with
  | none => exact hfinish .invalid none
  | some child =>
      exact held_walk (Uses.walk (S := flowliteOps) _) hsilent
        (fun _ => ⟨⟨trivial, nofun⟩, ⟨trivial, nofun⟩, ⟨trivial, nofun⟩, ⟨trivial, nofun⟩,
          trivial, nofun⟩) config a (fun _ _ => ⟨rfl, nofun⟩)
        (fun _ => True) ⟨trivial, trivial⟩ (fun _ _ => ⟨rfl, nofun⟩)
        (fun status output _ => hfinish status output) child fun _ _ => trivial

theorem setToInvalid_handles (a : TaskRunAttempt) :
    (setToInvalid a).Uses (Handles thread (.taskRunAttempt a.id)) :=
  finishTaskRunAttempt_uses (P := Handles thread (.taskRunAttempt a.id)) (fun _ h => h.handles _ _)
    (fun _ => ⟨.stopChild (.inl rfl), trivial⟩) a .invalid none
    fun _ => ⟨.settleAttempt rfl nofun, rfl⟩

end TaskRunAttemptMonitor

/-! ## The services around them -/

/-- A process group is killed, children are stopped, and the attempt settled. -/
theorem recoverTaskRunAttempt_uses {P : Op → Prop} (hsilent : ∀ o, Silent o → P o)
    (hkill : ∀ n, P (.killOrphan n)) (hstop : ∀ id, P (.write (.insertJobRunStop id)))
    (boot : Option Instant) (a : TaskRunAttempt)
    (hsettle : ∀ now, P (.write (.updateTaskRunAttempts { id := some a.id }
      { status := some .invalid, finishedAt := some (some now) }))) :
    (Recovery.recoverTaskRunAttempt boot a).Uses P := by
  refine Uses.bind ?_ fun _ => Uses.bind (stopChildJobRuns_uses hsilent hstop a) fun _ =>
    (now_silent.mono hsilent).bind fun now => uses_write (hsettle now)
  unfold Recovery.killOrphanProcessGroup
  split
  · split
    · trivial
    · exact (uses_perform _).mpr (hkill _)
  · trivial

theorem recoverTaskRunAttempt_handles (boot : Option Instant) (a : TaskRunAttempt) :
    (Recovery.recoverTaskRunAttempt boot a).Uses fun o : Op =>
      Handles (.service .recovery) (.taskRunAttempt a.id) o ∧ o ≠ .startServices :=
  recoverTaskRunAttempt_uses (fun o h => ⟨h.handles _ _, by rintro rfl; exact h⟩)
    (fun _ => ⟨⟨rfl, trivial⟩, nofun⟩) (fun _ => ⟨⟨.stopChild (.inr rfl), trivial⟩, nofun⟩) boot a
    fun _ => ⟨⟨.recoverAttempt, rfl⟩, nofun⟩

theorem scheduler_allowed (lib : Library) (config : Config) (schedule : Schedule) :
    (Scheduler.reconcileSchedule lib config schedule).Uses
      (Allowed (.service .scheduler)) := by
  refine Uses.bind (Uses.allowed now_silent) fun now =>
    Uses.bind (Uses.allowed (uses_map (o := .selectMem) trivial)) fun scheduleJobs =>
    Uses.forEach fun occurrence _ => Uses.forEach fun scheduleJob _ =>
    Uses.bind (Uses.allowed (selectJobRun_silent _)) fun existing => ?_
  split
  · trivial
  · exact Uses.bind (submitScheduled_allowed ..).attempt fun _ => uses_ret _

namespace Retention

theorem selectDeletableJobRuns_silent (jobId : Option String) (sort : DeletableSort)
    (offset limit : Option Nat) : (selectDeletableJobRuns jobId sort offset limit).Uses Silent := by
  unfold selectDeletableJobRuns
  refine Uses.bind ?_ fun (offset, limit) => (selectJobRuns_silent _).bind fun runs =>
    (uses_select trivial).bind fun pending => uses_ret _
  cases sort with
  | newestFirst => exact (uses_select trivial).bind fun _ => uses_ret _
  | oldestFirst => trivial

theorem selectPerJobCandidates_silent (config : Config) (ids : List Nat)
    (jobIds : List String) : (selectPerJobCandidates config ids jobIds).Uses Silent := by
  induction jobIds generalizing ids with
  | nil => trivial
  | cons jobId rest ih =>
      refine (selectJob_silent _ _).bind fun job => ?_
      dsimp only
      split
      all_goals
        split
        · exact ih _
        · exact (selectDeletableJobRuns_silent _ _ _ _).bind fun _ => ih _

theorem countFinishedJobRuns_silent : countFinishedJobRuns.Uses Silent :=
  (uses_select trivial).bind fun _ => uses_ret _

theorem selectGlobalOverflowCandidates_silent (config : Config) (ids : List Nat) :
    (selectGlobalOverflowCandidates config ids).Uses Silent := by
  unfold selectGlobalOverflowCandidates
  split
  · trivial
  · refine countFinishedJobRuns_silent.bind fun finished => ?_
    dsimp only
    split
    · trivial
    · exact (selectDeletableJobRuns_silent _ _ _ _).bind fun _ => uses_ret _

theorem selectRows_silent (config : Config) : (selectRows config).Uses Silent :=
  (uses_select trivial).bind fun _ => (selectPerJobCandidates_silent _ _ _).bind fun _ =>
    (selectGlobalOverflowCandidates_silent _ _).bind fun _ => uses_ret _

theorem handle_allowed (config : Config) (fuel id : Nat) :
    (handle config fuel id).Uses (Allowed (.service .retention)) := by
  refine Uses.bind (Uses.allowed (selectJobRunDescendants_silent _ _ _)) fun descendants => ?_
  split
  · trivial
  · refine (uses_write (P := Allowed _) .retain).bind fun deleted => Uses.forEach fun id _ =>
      Uses.bind (Uses.attempt ?_) fun _ => uses_ret _
    refine Uses.bind (Uses.allowed (jobRunDir_silent _ _)) fun dir =>
      Uses.bind ((uses_perform _).mpr trivial) fun isThere => ?_
    split
    · exact (uses_perform _).mpr trivial
    · trivial

end Retention

namespace Notifications

theorem getFailure_silent (r : TaskRun) : (getFailure r).Uses Silent := by
  refine (selectTaskRunAttempts_silent _ _).bind fun attempts => ?_
  split
  · trivial
  · exact (uses_select trivial).bind fun _ => uses_ret _

/-- Reads, the one send, and the record of what became of the row. -/
theorem handle_uses {P : Op → Prop} (hsilent : ∀ o, Silent o → P o) (n : JobRunNotification)
    (hsend : ∀ message, P (.sendNotification n n.channel n.recipients message))
    (hrecord : ∀ i : UpdateJobRunNotificationsInput, i.status ≠ some .pending →
      P (.write (.updateJobRunNotification n.id i))) :
    (handleOpenNotification n).Uses P := by
  refine Uses.bind ((getJobRun_silent _).mono hsilent) fun jobRun => ?_
  split
  · trivial
  split
  · exact uses_write (hrecord _ (by nofun))
  refine Uses.bind ((selectTaskRuns_silent _).mono hsilent) fun taskRuns =>
    Uses.bind ((Uses.collect fun r _ => getFailure_silent r).mono hsilent) fun failures =>
    Uses.bind (Uses.attempt ((uses_perform _).mpr (hsend _))) fun sent => ?_
  split
  · exact (uses_write (hrecord _ (by nofun))).bind fun _ => uses_throw _
  · exact Uses.bind (now_silent.mono hsilent) fun _ => uses_write (hrecord _ (by nofun))

theorem handle_allowed (n : JobRunNotification) :
    (handleOpenNotification n).Uses (Allowed (.service .notifications)) :=
  handle_uses (fun _ h => h.allowed _) n (fun _ => rfl) fun _ => .notify

end Notifications

/-- Every pass but the one that starts the services and the one whose children come
out of the map. -/
theorem pass_allowed (lib : Library) (config : Config) (fuel : Nat) {s : Service}
    (hr : s ≠ .recovery) (hm : s ≠ .taskRunAttemptMonitor) :
    (pass lib config fuel s).Uses (Allowed (.service s)) := by
  cases s with
  | recovery => exact absurd rfl hr
  | scheduler =>
      exact Poller.pass_uses (Uses.allowed (uses_map (o := .selectMem) trivial))
        (scheduler_allowed lib config)
  | jobRunReleaser =>
      exact Poller.pass_uses (Uses.allowed (selectJobRuns_silent _)) fun r => (jobRunReleaser_handles r).mono fun _ h => h.1
  | jobRunDispatcher =>
      exact Poller.pass_uses (Uses.allowed (selectJobRuns_silent _))
        fun r => (jobRunDispatcher_handles config r).mono fun _ h => h.1
  | jobRunMonitor =>
      exact Poller.pass_uses (Uses.allowed (selectJobRuns_silent _)) fun r => (jobRunMonitor_handles r).mono fun _ h => h.1
  | taskRunDispatcher =>
      exact Poller.pass_uses (Uses.allowed (selectTaskRuns_silent _)) fun r => (taskRunDispatcher_handles r).mono fun _ h => h.1
  | taskRunMonitor =>
      exact Poller.pass_uses (Uses.allowed (selectTaskRuns_silent _)) fun r => (taskRunMonitor_handles r).mono fun _ h => h.1
  | taskRunAttemptDispatcher =>
      exact Poller.pass_uses (Uses.allowed (selectTaskRunAttempts_silent _ _))
        fun a => (TaskRunAttemptDispatcher.handles lib config a).mono fun _ h => h.1
  | taskRunAttemptMonitor => exact absurd rfl hm
  | notifications =>
      exact Poller.pass_uses (uses_select (P := Allowed _) trivial) Notifications.handle_allowed
  | retention =>
      exact Poller.pass_uses (Uses.allowed (Retention.selectRows_silent config))
        (Retention.handle_allowed config fuel)

end Writes

end Flowlite
