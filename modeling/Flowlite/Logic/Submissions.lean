import Flowlite.Logic.JobRuns

/-!
# Submissions in pieces

`insert_job_run_definition` writes the job run first and the rows that make it up
one statement at a time. The log remembers what a run was submitted as, so that a
world can be asked whether all of it is there; `submissions` is the outline of the
runs whose rows are all there before anything else happens to them.
-/

namespace Flowlite

open Store Host Threads Crud Machine Outline

variable {lib : Library} {cond : (flowlite lib).Condition}

/-! ## What was submitted -/

/-- What a job run was submitted as: its task ids, and how many notifications it has. -/
structure Definition where
  jobId : String
  tasks : List String
  notifications : Nat

/-- The definition an event of the log wrote the first row of. -/
def Host.Event.submitted (e : Host.Event) (id : Nat) : Option Definition :=
  match e.op, e.result with
  | .write (.insertJobRun i tasks n), .ok (jobRunId : Nat) =>
      if jobRunId = id then some ⟨i.jobId, tasks, n⟩ else none
  | _, _ => none

/-- What the job run was submitted as. -/
def Host.World.definition (w : World) (id : Nat) : Option Definition :=
  w.log.findSome? fun e => e.submitted id

/-- A task run is there for every task the run was submitted with. -/
def TasksWritten (w : World) (id : Nat) : Prop :=
  ∀ d ∈ w.definition id, ∀ taskId ∈ d.tasks,
    ∃ x ∈ w.db.taskRuns.rows, x.jobRunId = id ∧ x.jobId = d.jobId ∧ x.taskId = taskId

/-- As many notifications are there as the run was submitted with. -/
def NotificationsWritten (w : World) (id : Nat) : Prop :=
  ∀ d ∈ w.definition id,
    d.notifications ≤ w.db.jobRunNotifications.rows.countP fun n => n.jobRunId = id

/-- No task run of the run is still planned. -/
def NonePlanned (w : World) (id : Nat) : Prop :=
  ∀ x ∈ w.db.taskRuns.rows, x.jobRunId = id → x.status ≠ .planned

instance (w : World) (id : Nat) : Decidable (TasksWritten w id) := by
  unfold TasksWritten
  infer_instance

instance (w : World) (id : Nat) : Decidable (NotificationsWritten w id) := by
  unfold NotificationsWritten
  infer_instance

instance (w : World) (id : Nat) : Decidable (NonePlanned w id) := by
  unfold NonePlanned
  infer_instance

section Steps

variable {t : Tid} {o : Op} {w w' : World} {r : Result o}

theorem definition_performs (h : Performs cond t o w r w') (id : Nat) :
    w'.definition id = ((Host.Event.mk t o r).submitted id).or (w.definition id) := by
  unfold Host.World.definition
  rw [log_performs h, List.findSome?_cons]
  cases (Host.Event.mk t o r).submitted id <;> rfl

theorem submitted_eq {id : Nat} {d : Definition} (h : (Host.Event.mk t o r).submitted id = some d) :
    ∃ i, o = .write (.insertJobRun i d.tasks d.notifications) ∧ d.jobId = i.jobId ∧
      HEq r (Except.ok id : Except Err Nat) := by
  unfold Host.Event.submitted at h
  dsimp only at h
  split at h
  · split at h
    · rename_i hid
      cases h
      exact ⟨_, rfl, rfl, by rw [hid]⟩
    · cases h
  · cases h

/-- What a run was submitted as is never rewritten. -/
theorem definition_kept (h : Performs cond t o w r w') {id : Nat} (hid : id < w.db.jobRuns.next) :
    w'.definition id = w.definition id := by
  rw [definition_performs h]
  cases hs : (Host.Event.mk t o r).submitted id with
  | none => rfl
  | some d =>
      obtain ⟨i, rfl, -, hr⟩ := submitted_eq hs
      cases eq_of_heq hr
      exact absurd (insertJobRun_answer h).1 (ne_of_lt hid)

theorem tasksWritten_performs (h : Performs cond t o w r w') {id : Nat}
    (hid : id < w.db.jobRuns.next) (hr : ¬ Removes w o r id) (hw : TasksWritten w id) :
    TasksWritten w' id := by
  intro d hd taskId htask
  rw [definition_kept h hid] at hd
  obtain ⟨x, hx, hjobRun, hjob, rfl⟩ := hw d hd taskId htask
  rcases taskRun_fate h (Table.find_of_mem hx) with hremoves | ⟨x', hx', hsame⟩
  · exact absurd (hjobRun ▸ hremoves) hr
  · exact ⟨x', Table.mem_of_find hx', by rw [hsame]; exact ⟨hjobRun, hjob, rfl⟩⟩

theorem notificationsWritten_performs (h : Performs cond t o w r w') {id : Nat}
    (hid : id < w.db.jobRuns.next) (hr : ¬ Removes w o r id) (hw : NotificationsWritten w id) :
    NotificationsWritten w' id := by
  intro d hd
  rw [definition_kept h hid] at hd
  refine le_trans (hw d hd) ?_
  rcases db_cases h with heq | ⟨hok, q, now, a, rfl, hrun⟩
  · rw [heq]
  cases q with
  | deleteJobRunsWithChildren f =>
      obtain ⟨-, hdb, -⟩ := Database.run_deleteJobRunsWithChildren hrun
      have hnot : id ∉ w.db.deletedBy f := fun hmem => hr ⟨hok, f, rfl, hmem⟩
      rw [hdb]
      change _ ≤ List.countP _ (List.filter (fun n => !(w.db.deletedBy f).contains n.jobRunId)
        w.db.jobRunNotifications.rows)
      rw [List.countP_filter]
      refine le_of_eq (List.countP_congr fun n _ => ?_)
      by_cases hn : n.jobRunId = id <;> simp [hn, hnot]
  | updateJobRunNotification nid i =>
      simp only [Write.run, Option.some.injEq, Prod.mk.injEq] at hrun
      rw [← hrun.2, Table.update, List.countP_map]
      refine le_of_eq (List.countP_congr fun n _ => ?_)
      by_cases hn : n.id = nid <;> simp [hn, UpdateJobRunNotificationsInput.patch]
  | deleteJobRun jobRunId deletedAt =>
      simp only [Write.run] at hrun
      split at hrun <;> simp only [Option.some.injEq, Prod.mk.injEq] at hrun <;> rw [← hrun.2]
      rfl
  | insertJobRunNotification i =>
      simp only [Write.run, Option.ite_none_right_eq_some, Option.some.injEq,
        Prod.mk.injEq] at hrun
      rw [← hrun.2.2, Table.insert, List.countP_append]
      exact Nat.le_add_right _ _
  | _ =>
      simp only [Write.run, Option.ite_none_right_eq_some, Option.some.injEq,
        Prod.mk.injEq] at hrun
      grind [Database.updateJobRuns, Database.updateTaskRuns, Database.updateTaskRunAttempts]

end Steps

/-! ## What the updates set -/

theorem updateTaskRuns_status {t : Tid} {f : UpdateTaskRunsFilter} {i : UpdateTaskRunsInput}
    (h : Allowed t (.write (.updateTaskRuns f i))) :
    ∃ status, i.status = some status ∧ status ≠ .planned ∧
      (status = .waiting → ∃ id, f = { jobRunId := some id, status := some .planned }) := by
  cases h with
  | endTaskRuns _ hs => exact ⟨_, rfl, by rcases hs with rfl | rfl <;> exact ⟨nofun, nofun⟩⟩
  | releaseTaskRuns => exact ⟨_, rfl, nofun, fun _ => ⟨_, rfl⟩⟩
  | dropTaskRun hs => exact ⟨_, rfl, by rcases hs with rfl | rfl <;> exact ⟨nofun, nofun⟩⟩
  | startTaskRun => exact ⟨_, rfl, nofun, nofun⟩
  | settleTaskRun hs _ =>
      refine ⟨_, rfl, ?_, ?_⟩
      · rintro rfl
        cases hs
      · rintro rfl
        cases hs

theorem updateJobRuns_status {t : Tid} {f : UpdateJobRunsFilter} {i : UpdateJobRunsInput}
    (h : Allowed t (.write (.updateJobRuns f i))) :
    ∃ id status, f.id = some id ∧ i.status = some status ∧
      (i.startedAt = none ∨ status = .running) := by
  cases h with
  | startJobRun => exact ⟨_, _, rfl, rfl, .inr rfl⟩
  | _ => exact ⟨_, _, rfl, rfl, .inl rfl⟩

theorem updateTaskRunsFilter_holds_jobRun {f : UpdateTaskRunsFilter} {x : TaskRun} {id : Nat}
    (hid : f.jobRunId = some id) (h : f.holds x = true) : x.jobRunId = id := by
  have := (Bool.and_eq_true_iff.mp (Bool.and_eq_true_iff.mp h).1).2
  simpa [hid] using this

/-! ## The outline -/

/-- The services have begun to execute the run: it is running, or was, or a task run
of it has been released. -/
def Executing (w : World) (id : Nat) : Prop :=
  ∃ x, w.db.jobRuns.find id = some x ∧ (x.status = .running ∨ x.startedAt.isSome = true ∨
    ∃ y ∈ w.db.taskRuns.rows, y.jobRunId = id ∧ y.status = .waiting)

/-- A run is started, ended or deleted only after a task run has been written for
each of its tasks; and, where `full` asks for it, started only after its
notifications have been as well. -/
def awaitsSubmission (full : Bool) (lib : Library) : (flowlite lib).Condition where
  step _ o w r _ :=
    match o, r with
    | .write (.updateTaskRuns f i), .ok _ => ∀ id ∈ f.jobRunId, TasksWritten w id ∧
        (full = true → i.status = some .waiting → NotificationsWritten w id)
    | .write (.deleteJobRun id _), .ok true => TasksWritten w id
    | _, _ => True
  env _ _ _ := True

instance (full : Bool) : (awaitsSubmission full lib).Checked where
  step t o w r w' := by
    rcases o with _ | q
    case write =>
      rcases q
      case updateTaskRuns f i => rcases r <;> (dsimp only [awaitsSubmission]; infer_instance)
      case deleteJobRun id now =>
        rcases r with _ | deleted
        · exact isTrue trivial
        · rcases deleted <;> (dsimp only [awaitsSubmission]; infer_instance)
      all_goals exact isTrue trivial
    all_goals exact isTrue trivial
  env _ _ _ := isTrue trivial

/-- What a run has to have before it is written as ended, or (`notified`) as started. -/
def Ready (notified : Bool) (id : Nat) (w : World) : Prop :=
  ∀ x, w.db.jobRuns.find id = some x →
    TasksWritten w id ∧ NonePlanned w id ∧ (notified = true → NotificationsWritten w id)

/-- The run has been inserted, whether or not it is still there. -/
def JobRunKnown (id : Nat) (w : World) : Prop := id < w.db.jobRuns.next

/-- What is started or over is all there, and none of it planned. -/
def submissions (full : Bool) (lib : Library) : Outline (flowlite lib) where
  inv w :=
    (∀ id x, w.db.jobRuns.find id = some x → (w.definition id).isSome = true ∧
      (x.status = .running ∨ x.status.isFinished = true → TasksWritten w id ∧ NonePlanned w id)) ∧
    ∀ id, Executing w id → TasksWritten w id ∧ (full = true → NotificationsWritten w id)
  pre _ o w :=
    match o with
    | .write (.insertTaskRun i) => i.jobRunId < w.db.jobRuns.next ∧
        ∃ d ∈ w.definition i.jobRunId, i.taskId ∈ d.tasks ∧ i.jobId = d.jobId
    | .write (.updateJobRuns f i) => ∀ id ∈ f.id, i.status ≠ some .queued →
        Ready (full && i.status = some .running) id w
    | _ => True
  idle _ _ := True

section Steps

variable {full : Bool} {t : Tid} {o : Op} {w w' : World} {r : Result o}

/-- Once every task has its task run, no further one is written. -/
theorem nonePlanned_performs (hb : cond.Le (base lib).established)
    (hpre : (submissions full lib).pre t o w) (h : Performs cond t o w r w') {id : Nat}
    (htasks : TasksWritten w id) (hw : NonePlanned w id) :
    NonePlanned w' id := by
  intro x' hx' hjobRun
  rcases taskRun_origin h (Table.find_of_mem hx') with hx |
    ⟨i, now, rfl, -, -, -, hunique, hnew⟩ |
    ⟨x, hx, ⟨f, i, rfl, -, -, hnew⟩ | ⟨now, j, -, -, -, -, hnew⟩⟩
  · exact hw x' (Table.mem_of_find hx) hjobRun
  · have hi : i.jobRunId = id := by rw [← hjobRun, hnew]; rfl
    obtain ⟨-, d, hd, htask, hjob⟩ := hpre
    rw [hi] at hd
    obtain ⟨y, hy, hyjobRun, hyjob, hytask⟩ := htasks d hd i.taskId htask
    exact absurd (hyjob.trans hjob.symm) (hunique y hy (hyjobRun.trans hi.symm) hytask)
  · obtain ⟨status, hstatus, hne, -⟩ := updateTaskRuns_status (allowed_of hb h)
    rw [hnew]
    simpa [UpdateTaskRunsInput.patch, hstatus] using hne
  · rw [hnew]
    intro h
    cases h

theorem not_removes_of_find (h : Performs cond t o w r w') {id : Nat} {x' : JobRun}
    (hx' : w'.db.jobRuns.find id = some x') : ¬ Removes w o r id := by
  intro hr
  rw [(hr.gone h).1] at hx'
  cases hx'

theorem ready_performs (hb : cond.Le (base lib).established)
    (hpre : (submissions full lib).pre t o w) (h : Performs cond t o w r w') {id : Nat}
    {notified : Bool} (hid : JobRunKnown id w) (hready : Ready notified id w) :
    Ready notified id w' := by
  intro x' hx'
  have hr := not_removes_of_find h hx'
  obtain ⟨x, hx⟩ : ∃ x, w.db.jobRuns.find id = some x := by
    rcases jobRun_origin h hx' with hx | ⟨i, tasks, n, now, -, -, rfl, -⟩ | ⟨x, hx, -⟩
    · exact ⟨x', hx⟩
    · exact absurd hid (lt_irrefl _)
    · exact ⟨x, hx⟩
  obtain ⟨htasks, hplanned, hnotified⟩ := hready x hx
  exact ⟨tasksWritten_performs h hid hr htasks, nonePlanned_performs hb hpre h htasks hplanned,
    fun hn => notificationsWritten_performs h hid hr (hnotified hn)⟩

theorem definition_happens {kill : Tid → Bool} (h : Happens cond w w' kill) (id : Nat) :
    w'.definition id = w.definition id := by
  unfold Host.World.definition
  rw [log_happens h]

theorem jobRunKnown_performs (h : Performs cond t o w r w') {id : Nat} (hw : JobRunKnown id w) :
    JobRunKnown id w' :=
  lt_of_lt_of_le hw (jobRuns_next_le h)

theorem jobRunKnown_stable (t : Tid) (id : Nat) :
    (submissions full lib).Stable cond t (JobRunKnown id) := by
  intro w w' hothers hw
  cases hothers with
  | run _ _ _ _ hperf => exact jobRunKnown_performs hperf hw
  | env _ _ _ hhappens =>
      unfold JobRunKnown
      rw [happens_db hhappens]
      exact hw

theorem ready_stable (hb : cond.Le (base lib).established) (t : Tid) (id : Nat)
    (notified : Bool) : (submissions full lib).Stable cond t fun w =>
      JobRunKnown id w ∧ Ready notified id w := by
  rintro w w' hothers ⟨hid, hw⟩
  refine ⟨jobRunKnown_stable t id w w' hothers hid, ?_⟩
  cases hothers with
  | run _ _ _ hpre hperf => exact ready_performs hb hpre hperf hid hw
  | env _ _ _ hhappens =>
      unfold Ready TasksWritten NotificationsWritten NonePlanned at hw ⊢
      rw [happens_db hhappens, definition_happens hhappens]
      exact hw

/-- A run that is deleted has all its task runs skipped with it. -/
theorem tombstone_nonePlanned {id : Nat} {now : Instant}
    (h : Performs cond t (.write (.deleteJobRun id now)) w (.ok true) w') : NonePlanned w' id := by
  obtain ⟨at', hrun⟩ := write_ok h
  simp only [Write.run] at hrun
  split at hrun
  · simp only [Option.some.injEq, Prod.mk.injEq, true_and] at hrun
    intro x' hx' hjobRun
    rw [← hrun] at hx'
    obtain ⟨x, -, rfl⟩ := Table.mem_update.mp hx'
    by_cases hx : x.jobRunId = id
    · simp [UpdateTaskRunsFilter.holds, hx, UpdateTaskRunsInput.patch]
    · simp [UpdateTaskRunsFilter.holds, hx] at hjobRun
  · simp at hrun

theorem submissions_settled (hb : cond.Le (base lib).established)
    (hc : cond.Le (awaitsSubmission full lib)) (hi : (submissions full lib).inv w)
    (hpre : (submissions full lib).pre t o w) (h : Performs cond t o w r w') {id : Nat}
    {x' : JobRun} (hx' : w'.db.jobRuns.find id = some x')
    (hstatus : x'.status = .running ∨ x'.status.isFinished = true) :
    TasksWritten w' id ∧ NonePlanned w' id := by
  have hr := not_removes_of_find h hx'
  -- it is enough to have been ready before
  have hready : ∀ {x}, w.db.jobRuns.find id = some x → TasksWritten w id → NonePlanned w id →
      TasksWritten w' id ∧ NonePlanned w' id := fun hx htasks hplanned =>
    ⟨tasksWritten_performs h (Table.lt_next_of_find hx) hr htasks,
      nonePlanned_performs hb hpre h htasks hplanned⟩
  rcases jobRun_origin h hx' with hx | ⟨i, tasks, n, now, rfl, -, -, rfl⟩ |
    ⟨x, hx, ⟨f, i, rfl, -, hf, rfl⟩ | ⟨now, rfl, ⟨a, rfl⟩, hscheduled, rfl⟩⟩
  · obtain ⟨htasks, hplanned⟩ := (hi.1 id x' hx).2 hstatus
    exact hready hx htasks hplanned
  · have hscheduled : i.status = .scheduled := by
      cases allowed_of hb h <;> assumption
    simp [InsertJobRunInput.draft, hscheduled, JobRunStatus.isFinished] at hstatus
  · obtain ⟨id', status, hid, hset, -⟩ := updateJobRuns_status (allowed_of hb h)
    have hsame : id' = id :=
      (updateJobRunsFilter_holds hid hf).symm.trans (Table.key_of_find hx)
    subst hsame
    have hne : i.status ≠ some .queued := by
      intro hqueued
      simp [UpdateJobRunsInput.patch, hqueued, JobRunStatus.isFinished] at hstatus
    obtain ⟨htasks, hplanned, -⟩ := hpre id' hid hne x hx
    exact hready hx htasks hplanned
  · cases a with
    | true =>
        have htasks : TasksWritten w id := hc.1 _ _ _ _ _ h.2
        exact ⟨tasksWritten_performs h (Table.lt_next_of_find hx) hr htasks,
          tombstone_nonePlanned h⟩
    | false =>
        -- nothing was deleted
        obtain ⟨at', hrun⟩ := write_ok h
        simp only [Write.run] at hrun
        split at hrun
        · simp at hrun
        · simp only [Option.some.injEq, Prod.mk.injEq, true_and] at hrun
          rw [← hrun, hx] at hx'
          have := congrArg JobRun.status (Option.some.inj hx')
          rw [hscheduled] at this
          cases this

/-- A waiting task run of the run was waiting before, or has just been released. -/
theorem waiting_before (hb : cond.Le (base lib).established) (h : Performs cond t o w r w')
    {id : Nat} {y' : TaskRun} (hy' : y' ∈ w'.db.taskRuns.rows) (hjobRun : y'.jobRunId = id)
    (hwaiting : y'.status = .waiting) :
    (∃ y ∈ w.db.taskRuns.rows, y.jobRunId = id ∧ y.status = .waiting) ∨
      (w.db.jobRuns.find id).isSome = true ∧ ∃ f i, o = .write (.updateTaskRuns f i) ∧
        Succeeded r ∧ f.jobRunId = some id ∧ i.status = some .waiting := by
  rcases taskRun_origin h (Table.find_of_mem hy') with hy |
    ⟨i, now, rfl, -, -, -, -, hnew⟩ |
    ⟨y, hy, ⟨f, i, rfl, hok, hf, hnew⟩ | ⟨now, j, -, -, -, -, hnew⟩⟩
  · exact .inl ⟨y', Table.mem_of_find hy, hjobRun, hwaiting⟩
  · have hplanned : i.status = .planned := by
      cases allowed_of hb h
      assumption
    rw [hnew] at hwaiting
    cases hplanned.symm.trans hwaiting
  · obtain ⟨status, hstatus, -, hrelease⟩ := updateTaskRuns_status (allowed_of hb h)
    have hset : status = .waiting := by
      simpa [hnew, UpdateTaskRunsInput.patch, hstatus] using hwaiting
    obtain ⟨id', rfl⟩ := hrelease hset
    have hid : y.jobRunId = id := by rw [← hjobRun, hnew]; rfl
    have hid' : y.jobRunId = id' := updateTaskRunsFilter_holds_jobRun rfl hf
    refine .inr ⟨?_, _, i, rfl, hok, by rw [← hid, hid'], by rw [hstatus, hset]⟩
    exact hid ▸ (linked_of hb h).1.jobRun_of_taskRun y (Table.mem_of_find hy)
  · rw [hnew] at hwaiting
    cases hwaiting

/-- A run that has been started was started before, or is being started now. -/
theorem started_before (hb : cond.Le (base lib).established) (h : Performs cond t o w r w')
    {id : Nat} {x' : JobRun} (hx' : w'.db.jobRuns.find id = some x')
    (hstarted : x'.status = .running ∨ x'.startedAt.isSome = true) :
    ∃ x, w.db.jobRuns.find id = some x ∧ ((x.status = .running ∨ x.startedAt.isSome = true) ∨
      ∃ f i, o = .write (.updateJobRuns f i) ∧ f.id = some id ∧ i.status = some .running) := by
  rcases jobRun_origin h hx' with hx | ⟨i, tasks, n, now, rfl, -, -, rfl⟩ |
    ⟨x, hx, ⟨f, i, rfl, -, hf, rfl⟩ | ⟨now, -, -, -, rfl⟩⟩
  · exact ⟨x', hx, .inl hstarted⟩
  · have hscheduled : i.status = .scheduled := by
      cases allowed_of hb h <;> assumption
    simp [InsertJobRunInput.draft, hscheduled] at hstarted
  · obtain ⟨id', status, hid, hset, hwhen⟩ := updateJobRuns_status (allowed_of hb h)
    have hsame : id' = id :=
      (updateJobRunsFilter_holds hid hf).symm.trans (Table.key_of_find hx)
    refine ⟨x, hx, ?_⟩
    by_cases hrunning : status = .running
    · exact .inr ⟨f, i, rfl, by rw [hid, hsame], by rw [hset, hrunning]⟩
    · have hkept := hwhen.resolve_right hrunning
      exact .inl (.inr (by simpa [UpdateJobRunsInput.patch, hset, hrunning, hkept] using hstarted))
  · exact ⟨x, hx, .inl (.inr (by simpa using hstarted))⟩

theorem submissions_executing (hb : cond.Le (base lib).established)
    (hc : cond.Le (awaitsSubmission full lib)) (hi : (submissions full lib).inv w)
    (hpre : (submissions full lib).pre t o w) (h : Performs cond t o w r w') {id : Nat}
    (hexec : Executing w' id) :
    TasksWritten w' id ∧ (full = true → NotificationsWritten w' id) := by
  obtain ⟨x', hx', hwhy⟩ := hexec
  have hr := not_removes_of_find h hx'
  -- it is enough to have been all there before
  suffices hbefore : id < w.db.jobRuns.next ∧ TasksWritten w id ∧
      (full = true → NotificationsWritten w id) from
    ⟨tasksWritten_performs h hbefore.1 hr hbefore.2.1,
      fun hf => notificationsWritten_performs h hbefore.1 hr (hbefore.2.2 hf)⟩
  have hstarted : (x'.status = .running ∨ x'.startedAt.isSome = true) ∨
      ∃ y ∈ w'.db.taskRuns.rows, y.jobRunId = id ∧ y.status = .waiting := by
    tauto
  rcases hstarted with hstarted | ⟨y', hy', hjobRun, hwaiting⟩
  · obtain ⟨x, hx, hbefore | ⟨f, i, rfl, hid, hrunning⟩⟩ := started_before hb h hx' hstarted
    · exact ⟨Table.lt_next_of_find hx, hi.2 id ⟨x, hx, by tauto⟩⟩
    · obtain ⟨htasks, -, hnotified⟩ := hpre id hid (by rw [hrunning]; nofun) x hx
      exact ⟨Table.lt_next_of_find hx, htasks, fun hf => hnotified (by simp [hf, hrunning])⟩
  · rcases waiting_before hb h hy' hjobRun hwaiting with ⟨y, hy, hyjobRun, hywaiting⟩ |
      ⟨hjob, f, i, rfl, ⟨a, rfl⟩, hid, hset⟩
    · have hlinked := (linked_of hb h).1.jobRun_of_taskRun y hy
      rw [hyjobRun] at hlinked
      obtain ⟨x, hx⟩ := Option.isSome_iff_exists.mp hlinked
      exact ⟨Table.lt_next_of_find hx, hi.2 id ⟨x, hx, .inr (.inr ⟨y, hy, hyjobRun, hywaiting⟩)⟩⟩
    · obtain ⟨x, hx⟩ := Option.isSome_iff_exists.mp hjob
      obtain ⟨htasks, hnotified⟩ := hc.1 _ _ _ _ _ h.2 id hid
      exact ⟨Table.lt_next_of_find hx, htasks, fun hf => hnotified hf hset⟩

theorem definition_written (hi : (submissions full lib).inv w) (h : Performs cond t o w r w') {id : Nat} {x' : JobRun}
    (hx' : w'.db.jobRuns.find id = some x') : (w'.definition id).isSome = true := by
  have hkept : ∀ {x}, w.db.jobRuns.find id = some x → (w'.definition id).isSome = true := by
    intro x hx
    rw [definition_kept h (Table.lt_next_of_find hx)]
    exact (hi.1 id x hx).1
  rcases jobRun_origin h hx' with hx | ⟨i, tasks, n, now, rfl, ⟨id', rfl⟩, hid, -⟩ | ⟨x, hx, -⟩
  · exact hkept hx
  · have hid' := (insertJobRun_answer h).1
    rw [definition_performs h, hid, ← hid']
    simp [Host.Event.submitted]
  · exact hkept hx

theorem submissions_step (hb : cond.Le (base lib).established)
    (hc : cond.Le (awaitsSubmission full lib)) (hi : (submissions full lib).inv w)
    (hpre : (submissions full lib).pre t o w) (h : Performs cond t o w r w') :
    (submissions full lib).inv w' :=
  ⟨fun _ _ hx' => ⟨definition_written hi h hx',
    fun hstatus => submissions_settled hb hc hi hpre h hx' hstatus⟩,
    fun _ hexec => submissions_executing hb hc hi hpre h hexec⟩

end Steps

/-! ## Submitting -/

/-- The run was submitted as `d`. -/
def SubmittedAs (d : Definition) (id : Nat) (w : World) : Prop :=
  JobRunKnown id w ∧ w.definition id = some d

section Triples

variable {full : Bool} {t : Tid}

theorem submittedAs_performs {o : Op} {w w' : World} {r : Result o} {d : Definition} {id : Nat}
    (h : Performs cond t o w r w') (hw : SubmittedAs d id w) : SubmittedAs d id w' :=
  ⟨jobRunKnown_performs h hw.1, by rw [definition_kept h hw.1, hw.2]⟩

theorem submittedAs_stable (t : Tid) (d : Definition) (id : Nat) :
    (submissions full lib).Stable cond t (SubmittedAs d id) := by
  intro w w' hothers hw
  cases hothers with
  | run _ _ _ _ hperf => exact submittedAs_performs hperf hw
  | env _ _ _ hhappens =>
      unfold SubmittedAs JobRunKnown
      rw [happens_db hhappens, definition_happens hhappens]
      exact hw

/-- Neither a task run goes in nor the status of a job run is written. -/
def KeepsSubmissions : Op → Prop
  | .write (.insertTaskRun _) | .write (.updateJobRuns _ _) => False
  | _ => True

theorem keepsSubmissions_pre {o : Op} (ho : KeepsSubmissions o) (t : Tid) (w : World) :
    (submissions full lib).pre t o w := by
  cases o with
  | write q => cases q <;> first | exact ho.elim | trivial
  | _ => trivial

theorem Silent.keepsSubmissions {o : Op} (h : Silent o) : KeepsSubmissions o := by
  cases o <;> trivial

theorem submissions_uses {α : Type} {P : World → Prop} {p : Code α}
    (hp : p.Uses KeepsSubmissions) : (submissions full lib).Triple cond t P p fun _ _ => True := by
  refine Triple.pre ?_ fun _ _ _ => trivial
  exact Triple.of_uses (stable_true _) (hp.mono fun o ho w r w' _ _ _ =>
    ⟨keepsSubmissions_pre ho _ _, fun _ => trivial⟩)

/-- The task runs that are written are those of the definition. -/
theorem submissions_insert (d : JobRunDefinition) :
    (submissions full lib).Triple cond t (fun _ => True) (insertJobRunDefinition d)
      fun _ _ => True := by
  let def' : Definition := ⟨d.jobId, d.tasks.map (·.taskId), d.notifications.length⟩
  refine Triple.bind (R := fun r w => ∀ id, r = .ok id → SubmittedAs def' id w) ?_
    (fun id => ?_) fun _ _ _ _ => trivial
  · refine Triple.perform (stable_true _) (fun _ _ _ _ _ _ => trivial) ?_
    rintro w r w' - - hperf - id rfl
    obtain ⟨-, hnext⟩ := insertJobRun_answer hperf
    refine ⟨by unfold JobRunKnown; omega, ?_⟩
    rw [definition_performs hperf]
    simp [Host.Event.submitted, def', JobRunDefinition.jobRunInput]
  · suffices h : (submissions full lib).Triple cond t (SubmittedAs def' id)
        (Prog.forEach d.tasks fun task => (insertTaskRun (d.taskRunInput id task)).bind
          fun _ => .ret ()) fun _ => SubmittedAs def' id by
      refine Triple.bind (h.pre fun _ _ h => h id rfl) (fun _ => submissions_uses ?_)
        fun _ _ _ _ => trivial
      exact Prog.Uses.bind (Prog.Uses.forEach fun n _ => Prog.Uses.bind (uses_write trivial)
        fun _ => Prog.uses_ret _) fun _ => Prog.uses_ret _
    refine Triple.of_uses (submittedAs_stable t def' id) (Prog.Uses.forEach fun task htask =>
      Prog.Uses.bind (uses_write fun w r w' _ hw hperf => ⟨⟨hw.1, def', hw.2, ?_, rfl⟩,
        fun _ => submittedAs_performs hperf hw⟩) fun _ => Prog.uses_ret _)
    exact List.mem_map_of_mem htask

theorem submissions_walk : Prog.Walk (S := flowliteOps) KeepsSubmissions
    (fun _ p => (submissions full lib).Triple cond t (fun _ => True) p fun _ _ => True)
    (fun _ p => (submissions full lib).Triple cond t (fun _ => True) p fun _ _ => True) :=
  Triple.walk (stable_true _)
    (fun _ ho _ _ _ _ _ _ => ⟨keepsSubmissions_pre ho _ _, fun _ => trivial⟩) fun _ _ _ => trivial

theorem submissions_scheduler (config : Config) :
    (submissions full lib).Triple cond t (fun _ => True) (Scheduler.poller lib config).pass
      fun _ _ => True :=
  scheduler_walk submissions_walk (fun _ ho => ho.keepsSubmissions) submissions_insert lib config

theorem submissions_request (r : Request) :
    (submissions full lib).Triple cond t (fun _ => True) r.code fun _ _ => True :=
  request_walk submissions_walk (fun _ ho => ho.keepsSubmissions) submissions_insert
    (fun _ => trivial) (fun _ _ => trivial) (fun _ _ => trivial) r

/-! ## Releasing -/

theorem jobRunKnown_uses {α : Type} {id : Nat} {p : Code α} (hp : p.Uses KeepsSubmissions) :
    (submissions full lib).Triple cond t (JobRunKnown id) p fun _ => JobRunKnown id :=
  Triple.of_uses (jobRunKnown_stable t id) (hp.mono fun _ ho _ _ _ _ hw hperf =>
    ⟨keepsSubmissions_pre ho _ _, fun _ => jobRunKnown_performs hperf hw⟩)

/-- The update of a run's task runs that has to come before the run's own: it leaves
none of them planned. -/
theorem submissions_releaseTaskRuns (hc : cond.Le (awaitsSubmission full lib)) {id : Nat} {f : UpdateTaskRunsFilter}
    {i : UpdateTaskRunsInput} {status : TaskRunStatus}
    (hf : f = { jobRunId := some id } ∨ f = { jobRunId := some id, status := some .planned })
    (hi : i.status = some status) (hstatus : status ≠ .planned) :
    (submissions full lib).Triple cond t (JobRunKnown id) (updateTaskRuns f i) fun r w =>
      r = .ok () → JobRunKnown id w ∧ Ready (full && status = .waiting) id w := by
  refine Triple.perform (jobRunKnown_stable t id) (fun _ _ _ _ _ _ => trivial) ?_
  rintro w r w' - hid hperf - rfl
  refine ⟨jobRunKnown_performs hperf hid, fun x' hx' => ?_⟩
  have hr : ¬ Removes w (.write (.updateTaskRuns f i)) (.ok ()) id := by
    rintro ⟨-, g, hg, -⟩
    cases hg
  have hfid : f.jobRunId = some id := by rcases hf with rfl | rfl <;> rfl
  obtain ⟨htasks, hnotified⟩ := hc.1 _ _ _ _ _ hperf.2 id hfid
  refine ⟨tasksWritten_performs hperf hid hr htasks, ?_, fun hn => ?_⟩
  · obtain ⟨now, hrun⟩ := write_ok hperf
    simp only [Write.run, Option.some.injEq, Prod.mk.injEq, true_and] at hrun
    intro y' hy' hjobRun
    rw [← hrun] at hy'
    obtain ⟨y, -, rfl⟩ := Table.mem_update.mp hy'
    rcases hf with rfl | rfl <;>
      grind [UpdateTaskRunsFilter.holds, UpdateTaskRunsInput.patch, clause, assign]
  · obtain ⟨hfull, hwaiting⟩ := Bool.and_eq_true_iff.mp hn
    exact notificationsWritten_performs hperf hid hr
      (hnotified hfull (by rw [hi, of_decide_eq_true hwaiting]))

/-- The run's own update, once its task runs have been released or ended. -/
theorem submissions_updateJobRuns (hb : cond.Le (base lib).established) {id : Nat}
    {i : UpdateJobRunsInput} (notified : Bool)
    (hi : full = true → i.status = some .running → notified = true) :
    (submissions full lib).Triple cond t (fun w => JobRunKnown id w ∧ Ready notified id w)
      (updateJobRuns { id := some id } i) fun _ _ => True := by
  refine Triple.perform (ready_stable hb t id notified) ?_ fun _ _ _ _ _ _ _ => trivial
  rintro w r w' - ⟨-, hready⟩ - id' hid' - x hx
  cases hid'
  obtain ⟨htasks, hplanned, hnotified⟩ := hready x hx
  refine ⟨htasks, hplanned, fun hn => hnotified ?_⟩
  obtain ⟨hfull, hrunning⟩ := Bool.and_eq_true_iff.mp hn
  exact hi hfull (of_decide_eq_true hrunning)

theorem submissions_settleUnstarted (hb : cond.Le (base lib).established)
    (hc : cond.Le (awaitsSubmission full lib)) {ts : TaskRunStatus} {js : JobRunStatus}
    (hts : ts ≠ .planned) (hjs : js ≠ .running) (id : Nat) :
    (submissions full lib).Triple cond t (JobRunKnown id) (settleUnstarted ts js id)
      fun _ _ => True := by
  refine Triple.seq (jobRunKnown_uses (now_silent.mono fun _ h => h.keepsSubmissions)) fun now => ?_
  refine Triple.seq (submissions_releaseTaskRuns hc (.inl rfl) rfl hts) fun _ => ?_
  exact (submissions_updateJobRuns hb (full && ts = .waiting)
    fun _ h => absurd (Option.some.inj h) hjs).pre fun _ _ h => h rfl

theorem submissions_releaser (hb : cond.Le (base lib).established)
    (hc : cond.Le (awaitsSubmission full lib)) (x : JobRun) :
    (submissions full lib).Triple cond t (JobRunKnown x.id)
      (JobRunReleaser.handleScheduledJobRun x) fun _ _ => True := by
  refine Triple.seq (jobRunKnown_uses ((jobRunReleaser_derives x).mono
    fun _ h => h.keepsSubmissions)) fun status => ?_
  split
  · exact submissions_settleUnstarted hb hc (by nofun) (by nofun) x.id
  · exact Triple.perform (jobRunKnown_stable t x.id)
      (fun _ _ _ _ _ _ _ _ hqueued => absurd rfl hqueued) fun _ _ _ _ _ _ _ => trivial
  · exact Triple.ret fun _ _ _ => trivial
  · exact submissions_settleUnstarted hb hc (by nofun) (by nofun) x.id

theorem submissions_dispatcher (hb : cond.Le (base lib).established)
    (hc : cond.Le (awaitsSubmission full lib)) (config : Config) (x : JobRun) :
    (submissions full lib).Triple cond t (JobRunKnown x.id)
      (JobRunDispatcher.handleQueuedJobRun config x) fun _ _ => True := by
  refine Triple.seq (jobRunKnown_uses ((jobRunDispatcher_derives config x).mono
    fun _ h => h.keepsSubmissions)) fun status => ?_
  split
  · exact submissions_settleUnstarted hb hc (by nofun) (by nofun) x.id
  · exact Triple.ret fun _ _ _ => trivial
  · refine Triple.seq (jobRunKnown_uses (createJobRunDir_uses (fun _ h => h.keepsSubmissions)
      (fun _ => trivial) config x.id)) fun _ => ?_
    refine Triple.seq (submissions_releaseTaskRuns hc (.inr rfl) rfl nofun) fun _ => ?_
    -- the reading of the clock stands between the two writes
    refine Triple.seq (R := fun _ w => JobRunKnown x.id w ∧ Ready full x.id w) ?_ fun startedAt =>
      submissions_updateJobRuns hb full fun hfull _ => hfull
    refine Triple.pre (Triple.of_uses (ready_stable hb t x.id full) (now_silent.mono
      fun o ho w r w' _ hw hperf => ?_)) fun w _ h => by simpa using h rfl
    have hpre : (submissions full lib).pre t o w := keepsSubmissions_pre ho.keepsSubmissions t w
    exact ⟨hpre, fun _ =>
      ⟨jobRunKnown_performs hperf hw.1, ready_performs hb hpre hperf hw.1 hw.2⟩⟩
  · exact submissions_settleUnstarted hb hc (by nofun) (by nofun) x.id

/-- A pass over job runs, each of which has been inserted by the time it is selected. -/
theorem submissions_pass {q : SelectJobRuns} {handle : JobRun → Code Unit}
    (hhandle : ∀ x, (submissions full lib).Triple cond t (JobRunKnown x.id) (handle x)
      fun _ _ => True) :
    (submissions full lib).Triple cond t (fun _ => True)
      (Poller.pass ⟨JobRun, selectJobRuns q, handle⟩) fun _ _ => True := by
  refine Poller.pass_triple (K := fun x : JobRun => JobRunKnown x.id)
    (R := fun x y : JobRun => x.id ≠ y.id) ?_ (fun x => jobRunKnown_stable t x.id)
    (fun x => (hhandle x).pre fun _ _ h => h.2)
    (fun x y _ => .of_forall _ fun _ _ _ _ _ _ _ hperf => jobRunKnown_performs hperf)
  exact Triple.selectJobRuns (O := submissions full lib) (stable_true _) (fun _ _ _ => trivial)
    (fun _ _ => trivial) fun w _ x _ _ hfind _ => Table.lt_next_of_find (t := w.db.jobRuns) hfind

theorem submissions_valid (hb : cond.Le (base lib).established)
    (hj : cond.Le (jobRuns lib).established) (hc : cond.Le (awaitsSubmission full lib)) :
    (submissions full lib).Valid cond where
  init := by
    rintro w rfl
    refine ⟨⟨fun id x hx => ?_, fun id ⟨x, hx, _⟩ => ?_⟩, fun _ => trivial⟩ <;> cases hx
  step _ _ _ _ _ hi hpre hperf := submissions_step hb hc hi hpre hperf
  env := by
    intro w w' kill hi hhappens
    refine ⟨?_, fun _ _ => trivial⟩
    have hdefinition := definition_happens hhappens
    unfold submissions Executing TasksWritten NotificationsWritten NonePlanned at hi ⊢
    simpa only [happens_db hhappens, hdefinition] using hi
  idle t := stable_true t
  start := by
    -- nobody else submits, and the monitor ends only runs that are running
    have hothers : ∀ {t : Tid}, ¬ Submits t → ¬ Releases t → ∀ p : Code Unit,
        (submissions full lib).Triple cond t (fun _ => True) p fun _ _ => True := by
      intro t hsubmits hreleases p
      refine Triple.of_pre fun o w r w' hi hperf => ?_
      have hallowed := allowed_of hb hperf
      by_cases ho : KeepsSubmissions o
      · exact keepsSubmissions_pre ho t w
      cases o with
      | write q =>
          cases q with
          | insertTaskRun i =>
              cases hallowed with
              | submitTask ht _ => exact absurd ht hsubmits
          | updateJobRuns f i =>
              intro id hid hne x hx
              have hid : f.id = some id := hid
              have hfrom := (hj.1 _ _ _ _ _ hperf.2).2.1 f i rfl id x hx
                (by simpa [UpdateJobRunsFilter.holds, hid] using Table.key_of_find hx)
              cases hallowed with
              | settleJobRun hfinished _ _ =>
                  obtain ⟨htasks, hplanned⟩ := (hi.1 id x hx).2 (.inl hfrom)
                  refine ⟨htasks, hplanned, fun hn => ?_⟩
                  have hrunning := of_decide_eq_true (Bool.and_eq_true_iff.mp hn).2
                  cases hrunning
                  cases hfinished
              | endJobRun ht _ => exact absurd ht hreleases
              | queueJobRun => exact absurd rfl hne
              | startJobRun => exact absurd (.inr rfl) hreleases
          | _ => exact absurd trivial ho
      | _ => exact absurd trivial ho
    refine start_triple (fun config fuel s => ?_) fun c r => submissions_request r
    refine Triple.pre ?_ fun _ _ _ => trivial
    cases s with
    | scheduler => exact submissions_scheduler config
    | jobRunReleaser => exact submissions_pass (submissions_releaser hb hc)
    | jobRunDispatcher => exact submissions_pass (submissions_dispatcher hb hc config)
    | _ => exact hothers (by simp [Submits]) (by simp [Releases]) _

end Triples

end Flowlite
