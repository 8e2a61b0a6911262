import Flowlite.Logic.Filed

/-!
# What a rerun takes over

The rows of a run say what it executes and how far it has come. `Database.snapshot` is the
first half: no statement changes it but the inserts that make the run up and the delete that
takes it away (`snapshot_run`), and `insert_job_run_definition` writes a run of the snapshot
its definition has (`alone_insertJobRunDefinition`).
-/

namespace Flowlite

open Store Host Threads Crud Machine

namespace Store

/-! ## Snapshots -/

/-- The run without what is its own: by whom and when it was asked for, and how far it is. -/
def JobRun.snapshot (r : JobRun) : JobRun :=
  { r with
    id := 0
    createdAt := 0
    scheduleId := none
    parentTaskRunAttemptId := none
    startedAt := none
    finishedAt := none
    status := .scheduled }

def TaskRun.snapshot (r : TaskRun) : TaskRun :=
  { r with
    id := 0
    jobRunId := 0
    createdAt := 0
    startedAt := none
    finishedAt := none
    status := .planned }

def JobRunNotification.snapshot (r : JobRunNotification) : JobRunNotification :=
  { r with
    id := 0
    jobRunId := 0
    createdAt := 0
    status := .pending
    error := ""
    sentAt := none }

/-- What a run executes and whom it notifies, in the order of the rows. -/
structure Snapshot where
  jobRun : JobRun
  taskRuns : List TaskRun
  notifications : List JobRunNotification

/-- Every row is of the run's own job, and no task is there twice. -/
structure Snapshot.Whole (s : Snapshot) : Prop where
  taskRuns : ∀ r ∈ s.taskRuns, r.jobId = s.jobRun.jobId
  notifications : ∀ n ∈ s.notifications, n.jobId = s.jobRun.jobId
  once : (s.taskRuns.map (·.taskId)).Nodup

namespace Database

variable (db : Database) (id : Nat)

def taskRunsOf : List TaskRun := db.taskRuns.rows.filter fun r => r.jobRunId = id

def notificationsOf : List JobRunNotification :=
  db.jobRunNotifications.rows.filter fun n => n.jobRunId = id

def snapshot : Option Snapshot :=
  (db.jobRuns.find id).map fun x =>
    { jobRun := x.snapshot
      taskRuns := (db.taskRunsOf id).map (·.snapshot)
      notifications := (db.notificationsOf id).map (·.snapshot) }

end Database

/-- The statement adds a row to those that make the run up. -/
def Write.AddsTo (id : Nat) : Write → Prop
  | .insertTaskRun i => i.jobRunId = id
  | .insertJobRunNotification i => i.jobRunId = id
  | _ => False

namespace Database

variable {db db' : Database} {id : Nat}

theorem snapshot_eq_none : db.snapshot id = none ↔ db.jobRuns.find id = none := by
  unfold snapshot
  exact Option.map_eq_none_iff

theorem snapshot_eq_some {s : Snapshot} : db.snapshot id = some s ↔ ∃ x,
    db.jobRuns.find id = some x ∧ x.snapshot = s.jobRun ∧
      (db.taskRunsOf id).map (·.snapshot) = s.taskRuns ∧
        (db.notificationsOf id).map (·.snapshot) = s.notifications := by
  unfold snapshot
  rw [Option.map_eq_some_iff]
  constructor
  · rintro ⟨x, hx, rfl⟩
    exact ⟨x, hx, rfl, rfl, rfl⟩
  · rintro ⟨x, hx, hjobRun, htaskRuns, hnotifications⟩
    refine ⟨x, hx, ?_⟩
    rw [hjobRun, htaskRuns, hnotifications]

/-! ## What a statement does to a snapshot -/

/-- Rows that are patched where they stand, and none of which changes its run. -/
theorem snapshot_update {α β : Type} [Keyed α] {t : Table α} {p q : α → Bool} {f : Patch α}
    {g : α → β} (hp : ∀ r, p (f.apply r) = p r) (hg : ∀ r, g (f.apply r) = g r) :
    ((t.update q f).rows.filter p).map g = (t.rows.filter p).map g := by
  have hp' : (p ∘ fun r => if q r then f.apply r else r) = p := by
    funext r
    show p (if q r then f.apply r else r) = p r
    split
    · exact hp r
    · rfl
  have hg' : (g ∘ fun r => if q r then f.apply r else r) = g := by
    funext r
    show g (if q r then f.apply r else r) = g r
    split
    · exact hg r
    · rfl
  show ((t.rows.map _).filter p).map g = _
  rw [List.filter_map, List.map_map, hp', hg']

/-- A row that goes in for another run. -/
theorem filter_insert {α : Type} [Keyed α] {t : Table α} {d : Draft α} {p : α → Bool}
    (hp : p (d.row t.next) = false) : (t.insert d).rows.filter p = t.rows.filter p := by
  show (t.rows ++ [d.row t.next]).filter p = _
  rw [List.filter_append, List.filter_singleton, hp, Bool.cond_false, List.append_nil]

theorem snapshot_updateJobRuns (f : UpdateJobRunsFilter) (i : UpdateJobRunsInput) :
    (db.updateJobRuns f i).snapshot id = db.snapshot id := by
  unfold snapshot
  show ((db.jobRuns.update f.holds i.patch).find id).map _ = _
  rw [Table.find_update, Option.map_map]
  congr 1
  funext x
  show Snapshot.mk (if f.holds x then i.patch.apply x else x).snapshot _ _ = _
  split <;> rfl

theorem snapshot_updateTaskRuns (f : UpdateTaskRunsFilter) (i : UpdateTaskRunsInput) :
    (db.updateTaskRuns f i).snapshot id = db.snapshot id := by
  have hrows : ((db.updateTaskRuns f i).taskRunsOf id).map (·.snapshot) =
      (db.taskRunsOf id).map (·.snapshot) :=
    snapshot_update (fun _ => rfl) fun _ => rfl
  unfold snapshot
  rw [hrows]
  rfl

/-- A run that is left by a delete is left whole. -/
theorem snapshot_deleteRows {gone : List Nat} (hid : id ∉ gone) :
    (db.deleteRows gone).snapshot id = db.snapshot id := by
  have hkept : ∀ {α : Type} (rows : List α) (run : α → Nat),
      (rows.filter fun r => !gone.contains (run r)).filter (fun r => run r = id) =
        rows.filter fun r => run r = id := by
    intro α rows run
    rw [List.filter_filter]
    refine List.filter_congr fun r _ => ?_
    by_cases hr : run r = id
    · simp [hr, hid]
    · simp [hr]
  have hfind : (db.deleteRows gone).jobRuns.find id = db.jobRuns.find id := by
    show (db.jobRuns.delete _).find id = _
    rw [Table.find_delete]
    cases hx : db.jobRuns.find id with
    | none => rfl
    | some x =>
        have hkey : x.id = id := Table.key_of_find hx
        simp [Option.filter, hkey, hid]
  unfold snapshot taskRunsOf notificationsOf
  rw [hfind]
  show Option.map _ _ = Option.map _ _
  simp only [deleteRows, Table.delete]
  rw [hkept, hkept]

/-- A statement that adds nothing to a run leaves its snapshot, or deletes the run. -/
theorem snapshot_run {q : Write} {now : Instant} {a : q.Answer}
    (h : q.run db now = some (a, db')) (hadds : ¬ q.AddsTo id) (hid : id < db.jobRuns.next) :
    db'.snapshot id = db.snapshot id ∨ db'.snapshot id = none := by
  cases q with
  | insertJobRun i tasks n =>
      obtain ⟨-, rfl⟩ := run_insert h
      left
      unfold snapshot
      dsimp only
      rw [Table.find_insert, if_neg (ne_of_lt hid)]
      rfl
  | insertTaskRun i =>
      obtain ⟨-, rfl⟩ := run_insert h
      have hother : decide (i.jobRunId = id) = false := decide_eq_false hadds
      left
      unfold snapshot taskRunsOf
      dsimp only
      rw [filter_insert hother]
      rfl
  | insertJobRunNotification i =>
      obtain ⟨-, rfl⟩ := run_insert h
      have hother : decide (i.jobRunId = id) = false := decide_eq_false hadds
      left
      unfold snapshot notificationsOf
      dsimp only
      rw [filter_insert hother]
      rfl
  | insertTaskRunAttempt i =>
      obtain ⟨-, rfl⟩ := run_insert h
      exact .inl rfl
  | insertJobRunStop i =>
      obtain ⟨-, rfl⟩ := run_insert h
      exact .inl rfl
  | insertTaskRunAttemptOutput i =>
      obtain ⟨-, rfl⟩ := run_insert h
      exact .inl rfl
  | updateJobRuns f i =>
      cases h
      exact .inl (snapshot_updateJobRuns f i)
  | updateTaskRuns f i =>
      cases h
      exact .inl (snapshot_updateTaskRuns f i)
  | updateTaskRunAttempts f i =>
      cases h
      exact .inl rfl
  | updateJobRunNotification n i =>
      cases h
      left
      unfold snapshot notificationsOf
      dsimp only
      rw [snapshot_update (fun _ => rfl) fun _ => rfl]
      rfl
  | deleteJobRun n deletedAt =>
      simp only [Write.run] at h
      split at h <;> cases h
      · exact .inl ((snapshot_updateJobRuns _ _).trans (snapshot_updateTaskRuns _ _))
      · exact .inl rfl
  | deleteJobRunsWithChildren f =>
      obtain ⟨-, rfl, -⟩ := run_deleteJobRunsWithChildren h
      by_cases hgone : id ∈ db.deletedBy f
      · right
        rw [snapshot_eq_none]
        show (db.jobRuns.delete _).find id = none
        rw [Table.find_delete]
        cases hx : db.jobRuns.find id with
        | none => rfl
        | some x =>
            have hkey : x.id = id := Table.key_of_find hx
            simp [Option.filter, hkey, hgone]
      · exact .inl (snapshot_deleteRows hgone)

end Database

end Store

/-! ## Writing a definition

Every insert of a definition goes through where nobody disturbs it. -/

section Definition

variable {clock : World → Instant} {w : World}

theorem undisturbed_write {q : Write} {a : q.Answer} {db : Database}
    (h : q.run w.db (clock w) = some (a, db)) :
    (write q).alone (undisturbed clock) w = some (.ok a, w.commit db q) := by
  refine Prog.alone_perform (S := flowliteOps) (o := Op.write q) ?_
  unfold undisturbed World.outcome
  dsimp only
  rw [h]

/-- The row that was inserted for an input, whenever that was. -/
def InsertedTaskRun (i : InsertTaskRunInput) (r : TaskRun) : Prop :=
  ∃ now n, r = (i.draft now).row n

def InsertedNotification (i : InsertJobRunNotificationInput) (n : JobRunNotification) : Prop :=
  ∃ now id, n = (i.draft now).row id

variable (clock) in
theorem alone_insertTaskRuns (d : JobRunDefinition) {id : Nat} {tasks : List JobRunTaskDefinition}
    (hrun : w.db.hasJobRun id = true) (honce : (tasks.map (·.taskId)).Nodup)
    (hnew : ∀ r ∈ w.db.taskRunsOf id, r.taskId ∉ tasks.map (·.taskId)) :
    ∃ w' rows, (Prog.forEach tasks fun task =>
        (insertTaskRun (d.taskRunInput id task)).bind fun _ => .ret ()).alone
          (undisturbed clock) w = some (.ok (), w') ∧
      w'.db = { w.db with taskRuns := w'.db.taskRuns } ∧
        w'.db.taskRunsOf id = w.db.taskRunsOf id ++ rows ∧
          List.Forall₂ (fun task r => InsertedTaskRun (d.taskRunInput id task) r) tasks rows := by
  induction tasks generalizing w with
  | nil => exact ⟨w, [], rfl, rfl, (List.append_nil _).symm, .nil⟩
  | cons task rest ih =>
      obtain ⟨hother, hrest⟩ := List.nodup_cons.mp honce
      let row := ((d.taskRunInput id task).draft (clock w)).row w.db.taskRuns.next
      let db : Database := { w.db with
        taskRuns := w.db.taskRuns.insert ((d.taskRunInput id task).draft (clock w)) }
      -- the task is not there yet
      have hunique : (w.db.taskRuns.rows.any fun r => r.jobRunId = id && r.taskId = task.taskId &&
          r.jobId = d.jobId) = false := by
        simp only [List.any_eq_false, Bool.and_eq_true, decide_eq_true_eq, not_and]
        intro r hr hkey
        have hmem : r ∈ w.db.taskRunsOf id := List.mem_filter.mpr ⟨hr, decide_eq_true hkey.1⟩
        exact absurd (hkey.2 ▸ List.mem_cons_self) (hnew r hmem)
      have hinsert : (Write.insertTaskRun (d.taskRunInput id task)).run w.db (clock w) =
          some (w.db.taskRuns.next, db) := by
        refine if_pos ?_
        show (w.db.hasJobRun id && !(w.db.taskRuns.rows.any fun r => r.jobRunId = id &&
          r.taskId = task.taskId && r.jobId = d.jobId)) = true
        rw [hrun, hunique]
        rfl
      have hrows : db.taskRunsOf id = w.db.taskRunsOf id ++ [row] := by
        show (w.db.taskRuns.rows ++ [row]).filter (fun r => r.jobRunId = id) = _
        rw [List.filter_append, List.filter_singleton]
        have hof : decide (row.jobRunId = id) = true := decide_eq_true rfl
        rw [hof]
        rfl
      obtain ⟨w', rows, halone, hdb, htaskRuns, hinserted⟩ := ih (w := { w with db }) hrun hrest
        (by
          intro r hr
          rw [show ({ w with db } : World).db.taskRunsOf id = _ from hrows] at hr
          rcases List.mem_append.mp hr with hr | hr
          · exact fun hmem => hnew r hr (List.mem_cons_of_mem _ hmem)
          · rw [List.mem_singleton.mp hr]
            exact hother)
      refine ⟨w', row :: rows, ?_, hdb, ?_, .cons ⟨_, _, rfl⟩ hinserted⟩
      · have hfirst := undisturbed_write hinsert
        rw [Prog.forEach, Prog.alone_bind_of_ok (Prog.alone_bind_of_ok hfirst _)]
        exact halone
      · rw [htaskRuns]
        show db.taskRunsOf id ++ rows = _
        rw [hrows, List.append_assoc]
        rfl

variable (clock) in
theorem alone_insertJobRunNotifications (d : JobRunDefinition) {id : Nat}
    (notifications : List JobRunNotificationDefinition) (hrun : w.db.hasJobRun id = true) :
    ∃ w' rows, (Prog.forEach notifications fun n =>
        (insertJobRunNotification (d.notificationInput id n)).bind fun _ => .ret ()).alone
          (undisturbed clock) w = some (.ok (), w') ∧
      w'.db = { w.db with jobRunNotifications := w'.db.jobRunNotifications } ∧
        w'.db.notificationsOf id = w.db.notificationsOf id ++ rows ∧
          List.Forall₂ (fun n r => InsertedNotification (d.notificationInput id n) r)
            notifications rows := by
  induction notifications generalizing w with
  | nil => exact ⟨w, [], rfl, rfl, (List.append_nil _).symm, .nil⟩
  | cons n rest ih =>
      let row := ((d.notificationInput id n).draft (clock w)).row w.db.jobRunNotifications.next
      let db : Database := { w.db with
        jobRunNotifications :=
          w.db.jobRunNotifications.insert ((d.notificationInput id n).draft (clock w)) }
      have hinsert : (Write.insertJobRunNotification (d.notificationInput id n)).run w.db
          (clock w) = some (w.db.jobRunNotifications.next, db) := if_pos hrun
      have hrows : db.notificationsOf id = w.db.notificationsOf id ++ [row] := by
        show (w.db.jobRunNotifications.rows ++ [row]).filter (fun r => r.jobRunId = id) = _
        have hof : decide (row.jobRunId = id) = true := decide_eq_true rfl
        rw [List.filter_append, List.filter_singleton, hof]
        rfl
      obtain ⟨w', rows, halone, hdb, hnotifications, hinserted⟩ := ih (w := { w with db }) hrun
      refine ⟨w', row :: rows, ?_, hdb, ?_, .cons ⟨_, _, rfl⟩ hinserted⟩
      · have hfirst := undisturbed_write hinsert
        rw [Prog.forEach, Prog.alone_bind_of_ok (Prog.alone_bind_of_ok hfirst _)]
        exact halone
      · rw [hnotifications]
        show db.notificationsOf id ++ rows = _
        rw [hrows, List.append_assoc]
        rfl

/-- The rows that are there once a definition has been written as the run `id`. -/
structure Written (d : JobRunDefinition) (db : Database) (id : Nat) : Prop where
  jobRun : ∃ now, db.jobRuns.find id = some ((d.jobRunInput.draft now).row id)
  taskRuns : List.Forall₂ (fun task r => InsertedTaskRun (d.taskRunInput id task) r) d.tasks
    (db.taskRunsOf id)
  notifications : List.Forall₂ (fun n r => InsertedNotification (d.notificationInput id n) r)
    d.notifications (db.notificationsOf id)

/-- The snapshot of a run that is written as the definition. -/
def snapshotOf (d : JobRunDefinition) : Snapshot where
  jobRun := ((d.jobRunInput.draft 0).row 0).snapshot
  taskRuns := d.tasks.map fun task => (((d.taskRunInput 0 task).draft 0).row 0).snapshot
  notifications := d.notifications.map fun n =>
    (((d.notificationInput 0 n).draft 0).row 0).snapshot

/-- Rows that are related one by one to what has a value have that value. -/
theorem map_eq_of_forall₂ {α β γ : Type} {R : α → β → Prop} {f : α → γ} {g : β → γ}
    {xs : List α} {ys : List β} (h : List.Forall₂ R xs ys) (heq : ∀ x y, R x y → g y = f x) :
    ys.map g = xs.map f := by
  induction h with
  | nil => rfl
  | cons hxy _ ih => rw [List.map_cons, List.map_cons, heq _ _ hxy, ih]

/-- Rows that are related one by one to anything have what follows from that. -/
theorem forall_of_forall₂ {α β : Type} {R : α → β → Prop} {P : β → Prop} {xs : List α}
    {ys : List β} (h : List.Forall₂ R xs ys) (himp : ∀ x y, R x y → P y) : ∀ y ∈ ys, P y := by
  induction h with
  | nil => exact fun y hy => absurd hy List.not_mem_nil
  | cons hxy _ ih => exact List.forall_mem_cons.mpr ⟨himp _ _ hxy, ih⟩

theorem Written.snapshot {d : JobRunDefinition} {db : Database} {id : Nat}
    (h : Written d db id) : db.snapshot id = some (snapshotOf d) := by
  obtain ⟨⟨now, hjobRun⟩, htaskRuns, hnotifications⟩ := h
  refine Database.snapshot_eq_some.mpr ⟨_, hjobRun, rfl, ?_, ?_⟩
  · refine map_eq_of_forall₂ htaskRuns ?_
    rintro task _ ⟨now, n, rfl⟩
    rfl
  · refine map_eq_of_forall₂ hnotifications ?_
    rintro n _ ⟨now, id, rfl⟩
    rfl

/-- The run is there as it was asked for: nothing of it has been touched yet. -/
structure Fresh (scheduleId : Option String) (parent : Option Nat) (db : Database) (id : Nat) :
    Prop where
  jobRun : ∃ x, db.jobRuns.find id = some x ∧ x.scheduleId = scheduleId ∧
    x.parentTaskRunAttemptId = parent ∧ x.status = .scheduled ∧ x.startedAt = none ∧
      x.finishedAt = none
  taskRuns : ∀ r ∈ db.taskRunsOf id, r.status = .planned ∧ r.startedAt = none ∧
    r.finishedAt = none
  notifications : ∀ n ∈ db.notificationsOf id, n.status = .pending ∧ n.error = "" ∧
    n.sentAt = none

theorem Written.fresh {d : JobRunDefinition} {db : Database} {id : Nat} (h : Written d db id) :
    Fresh d.scheduleId d.parentTaskRunAttemptId db id := by
  obtain ⟨⟨now, hjobRun⟩, htaskRuns, hnotifications⟩ := h
  refine ⟨⟨_, hjobRun, rfl, rfl, rfl, rfl, rfl⟩, ?_, ?_⟩
  · refine forall_of_forall₂ htaskRuns ?_
    rintro task _ ⟨now, n, rfl⟩
    exact ⟨rfl, rfl, rfl⟩
  · refine forall_of_forall₂ hnotifications ?_
    rintro n _ ⟨now, id, rfl⟩
    exact ⟨rfl, rfl, rfl⟩

/-- What nobody disturbs is a step of the machine. -/
theorem performs_of_undisturbed (lib : Library) {o : Op} {r : Result o} {w' : World}
    (h : undisturbed clock w o = some (r, w')) :
    Performs (.any : (flowlite lib).Condition) (.client 0) o w r
      { w' with log := ⟨.client 0, o, r⟩ :: w'.log } := by
  refine ⟨⟨{ now := clock w }, ?_⟩, trivial⟩
  show (undisturbed clock w o).map _ = _
  rw [h]
  rfl

theorem references_undisturbed (lib : Library) {α : Type} {p : Code α} {x : Except Err α}
    {w' : World} (h : p.alone (undisturbed clock) w = some (x, w')) (hrefs : w.db.References) :
    w'.db.References := by
  refine Prog.alone_keeps (I := fun w => w.db.References) (fun hact hs => ?_) h hrefs
  have hkept := references_performs (performs_of_undisturbed lib hact) hs
  exact hkept

variable (clock) in
/-- A definition whose tasks are distinct and whose parent is there is written as it is. -/
theorem alone_insertJobRunDefinition (d : JobRunDefinition) (hrefs : w.db.References)
    (hparent : d.parentTaskRunAttemptId.all w.db.hasTaskRunAttempt = true)
    (honce : (d.tasks.map (·.taskId)).Nodup) :
    ∃ w', (insertJobRunDefinition d).alone (undisturbed clock) w =
        some (.ok w.db.jobRuns.next, w') ∧
      Written d w'.db w.db.jobRuns.next := by
  let id := w.db.jobRuns.next
  have hfresh : ∀ n, (w.db.jobRuns.find n).isSome = true → n ≠ id := by
    rintro _ hsome rfl
    rw [Table.find_eq_none_of_le le_rfl] at hsome
    cases hsome
  have hnoTask : w.db.taskRunsOf id = [] :=
    List.filter_eq_nil_iff.mpr fun r hr h =>
      hfresh _ (hrefs.taskRun r hr) (of_decide_eq_true h)
  have hnoNotification : w.db.notificationsOf id = [] :=
    List.filter_eq_nil_iff.mpr fun r hr h =>
      hfresh _ (hrefs.notification r hr) (of_decide_eq_true h)
  let w₁ : World := { w with db := { w.db with
    jobRuns := w.db.jobRuns.insert (d.jobRunInput.draft (clock w)) } }
  have hinsert : (insertJobRun d.jobRunInput (d.tasks.map (·.taskId)) d.notifications.length).alone
      (undisturbed clock) w = some (.ok id, w₁) :=
    undisturbed_write (if_pos hparent)
  have hjobRun : w₁.db.jobRuns.find id = some ((d.jobRunInput.draft (clock w)).row id) := by
    show (w.db.jobRuns.insert _).find id = _
    rw [Table.find_insert, if_pos rfl]
  have hrun : w₁.db.hasJobRun id = true := by
    unfold Database.hasJobRun
    rw [hjobRun]
    rfl
  obtain ⟨w₂, taskRuns, htasks, hdb₂, hof₂, htaskRuns⟩ :=
    alone_insertTaskRuns clock d hrun honce fun r hr =>
      absurd (hnoTask ▸ hr : r ∈ []) List.not_mem_nil
  have hrun₂ : w₂.db.hasJobRun id = true := by
    rw [hdb₂]
    exact hrun
  obtain ⟨w₃, notifications, hnotify, hdb₃, hof₃, hnotifications⟩ :=
    alone_insertJobRunNotifications clock d d.notifications hrun₂
  refine ⟨w₃, ?_, ⟨⟨clock w, ?_⟩, ?_, ?_⟩⟩
  · unfold insertJobRunDefinition
    rw [Prog.bind_eq, Prog.alone_bind_of_ok hinsert]
    exact (Prog.alone_bind_of_ok htasks _).trans (Prog.alone_bind_of_ok hnotify _)
  · rw [hdb₃, hdb₂]
    exact hjobRun
  · have hof : w₃.db.taskRunsOf id = taskRuns := by
      rw [hdb₃]
      exact hof₂.trans (congrArg (· ++ taskRuns) hnoTask)
    rw [hof]
    exact htaskRuns
  · have hof : w₃.db.notificationsOf id = notifications := by
      rw [hof₃, hdb₂]
      exact congrArg (· ++ notifications) hnoNotification
    rw [hof]
    exact hnotifications

end Definition

/-- A run with all the rows of its definition: of its own job, and no task twice. -/
def FullyWritten (db : Database) (id : Nat) : Prop := ∃ s, db.snapshot id = some s ∧ s.Whole

theorem Written.fullyWritten {d : JobRunDefinition} {db : Database} {id : Nat}
    (h : Written d db id) (honce : (d.tasks.map (·.taskId)).Nodup) : FullyWritten db id := by
  refine ⟨snapshotOf d, h.snapshot, ⟨?_, ?_, ?_⟩⟩
  · intro r hr
    obtain ⟨task, -, rfl⟩ := List.mem_map.mp hr
    rfl
  · intro n hn
    obtain ⟨_, -, rfl⟩ := List.mem_map.mp hn
    rfl
  · show ((d.tasks.map _).map _).Nodup
    rw [List.map_map]
    exact honce

theorem all_filter {α : Type} (a : Option α) (p : α → Bool) : (a.filter p).all p = true := by
  cases a with
  | none => rfl
  | some a => by_cases h : p a = true <;> simp [Option.filter_some, h]

variable (clock w) in
/-- The parent of a submission, once its check has passed. -/
theorem alone_resolveParent (parent : Option Nat) :
    (∃ e, (resolveParentTaskRunAttempt parent).alone (undisturbed clock) w = some (.error e, w)) ∨
      (resolveParentTaskRunAttempt parent).alone (undisturbed clock) w =
        some (.ok (parent.filter w.db.hasTaskRunAttempt), w) := by
  cases parent with
  | none => exact .inr rfl
  | some id =>
      let attempts := w.db.selectTaskRunAttempts { id := some id } none
      have hselect : (selectTaskRunAttempts { id := some id } none).alone (undisturbed clock) w =
          some (.ok attempts, w) :=
        undisturbed_select _
      have hmem : ∀ a, a ∈ attempts ↔ w.db.taskRunAttempts.find id = some a := by
        intro a
        rw [Database.mem_selectTaskRunAttempts]
        constructor
        · rintro ⟨ha, hid⟩
          have hid : a.id = id := by simpa [SelectTaskRunAttemptsFilter.holds] using hid
          rwa [hid] at ha
        · intro ha
          have hid : a.id = id := Table.key_of_find ha
          exact ⟨hid.symm ▸ ha, by simp [SelectTaskRunAttemptsFilter.holds, hid]⟩
      unfold resolveParentTaskRunAttempt
      dsimp only
      rw [Prog.bind_eq, Prog.alone_bind_of_ok hselect]
      cases hhead : attempts.head? with
      | none =>
          have hgone : w.db.hasTaskRunAttempt id = false := by
            have hnone : attempts = [] := List.head?_eq_none_iff.mp hhead
            unfold Database.hasTaskRunAttempt
            cases hfind : w.db.taskRunAttempts.find id with
            | none => rfl
            | some a => exact absurd ((hmem a).mpr hfind) (hnone ▸ List.not_mem_nil)
          right
          show _ = some (Except.ok (Option.filter _ (some id)), w)
          rw [Option.filter_some, hgone]
          rfl
      | some attempt =>
          have hthere : w.db.hasTaskRunAttempt id = true := by
            unfold Database.hasTaskRunAttempt
            rw [(hmem attempt).mp (List.mem_of_head? hhead)]
            rfl
          dsimp only
          split
          · exact .inl ⟨_, rfl⟩
          have hstop : (selectJobRunStop attempt.jobRunId).alone (undisturbed clock) w =
              some (.ok _, w) :=
            Prog.alone_bind_of_ok (undisturbed_select _) _
          rw [Prog.bind_eq, Prog.alone_bind_of_ok hstop]
          split
          · exact .inl ⟨_, rfl⟩
          · right
            rw [Option.filter_some, hthere]
            rfl

/-- The definition `submit_job` writes. -/
def submittedDefinition (job : Job) (tasks : List Task) (parameters : BTreeMap String String)
    (scheduledAt : Instant) (scheduleId : Option String) (parent : Option Nat) :
    JobRunDefinition where
  jobId := job.jobId
  jobName := job.name
  jobDescription := job.description
  parameters
  scheduledAt
  scheduleId
  parentTaskRunAttemptId := parent
  tasks := tasks.map fun task => jobRunTaskDefinition task job
  notifications := jobRunNotificationDefinitions job.onFailureRecipients job.onSuccessRecipients

/-- A submission that goes through by itself has been accepted, and is fully written. -/
theorem written_of_submitJob {config : Config} {jobId : String}
    {overrides : BTreeMap String String} {scheduledAt : Instant} {scheduleId : Option String}
    {parent : Option Nat} {id : Nat} {w' : World} (hrefs : w.db.References)
    (honce : ((config.tasks.filter fun t => t.jobId = jobId).map (·.taskId)).Nodup)
    (h : (submitJob config jobId overrides scheduledAt scheduleId parent).alone
      (undisturbed clock) w = some (.ok id, w')) :
    FullyWritten w'.db id ∧ ∃ job parameters, job ∈ config.jobs ∧
      resolveJobParameters jobId job.parameters overrides = .ok parameters ∧
        Written (submittedDefinition job (config.tasks.filter fun t => t.jobId = jobId)
          parameters scheduledAt scheduleId (parent.filter w.db.hasTaskRunAttempt)) w'.db id := by
  rcases alone_resolveParent clock w parent with ⟨e, he⟩ | hparent
  · cases (Prog.alone_bind_of_error he _).symm.trans h
  have hjob : (selectJob config jobId).alone (undisturbed clock) w =
      some (.ok (config.jobs.find? fun j => j.jobId = jobId), w) := rfl
  have htasks : (selectTasks config jobId).alone (undisturbed clock) w =
      some (.ok (config.tasks.filter fun t => t.jobId = jobId), w) := rfl
  unfold submitJob at h
  rw [Prog.bind_eq, Prog.alone_bind_of_ok hparent, Prog.bind_eq, Prog.alone_bind_of_ok hjob] at h
  cases hfind : config.jobs.find? fun j => j.jobId = jobId with
  | none =>
      rw [hfind] at h
      cases h
  | some job =>
      rw [hfind] at h
      have hresolve : (Prog.ofExcept (S := flowliteOps)
          (resolveJobParameters jobId job.parameters overrides)).alone (undisturbed clock) w =
            some (resolveJobParameters jobId job.parameters overrides, w) := by
        cases resolveJobParameters jobId job.parameters overrides <;> rfl
      cases hparameters : resolveJobParameters jobId job.parameters overrides with
      | error e =>
          have herror := hresolve.trans (congrArg (fun r => some (r, w)) hparameters)
          cases (Prog.alone_bind_of_error herror _).symm.trans h
      | ok parameters =>
          have hok := hresolve.trans (congrArg (fun r => some (r, w)) hparameters)
          have h := (Prog.alone_bind_of_ok hok _).symm.trans h
          have h := (Prog.alone_bind_of_ok htasks _).symm.trans h
          let d := submittedDefinition job (config.tasks.filter fun t => t.jobId = jobId)
            parameters scheduledAt scheduleId (parent.filter w.db.hasTaskRunAttempt)
          have htaskIds : (d.tasks.map (·.taskId)).Nodup := by
            show (((config.tasks.filter fun t => t.jobId = jobId).map _).map _).Nodup
            rw [List.map_map]
            exact honce
          obtain ⟨w'', halone, hwritten⟩ :=
            alone_insertJobRunDefinition clock d hrefs (all_filter _ _) htaskIds
          cases halone.symm.trans h
          exact ⟨hwritten.fullyWritten htaskIds, job, parameters, List.mem_of_find?_eq_some hfind,
            hparameters, hwritten⟩

/-! ## Reading a run back -/

section Rerun

variable {clock : World → Instant} {w : World}

/-- The definition `rerun_job` reads off the rows of a run. -/
def rerunDefinition (db : Database) (id : Nat) (x : JobRun) (parent : Option Nat) :
    JobRunDefinition where
  jobId := x.jobId
  jobName := x.jobName
  jobDescription := x.jobDescription
  parameters := x.parameters
  scheduledAt := x.scheduledAt
  scheduleId := none
  parentTaskRunAttemptId := parent
  tasks := (db.taskRunsOf id).map rerunTaskDefinition
  notifications := (db.notificationsOf id).map fun n =>
    { notifyOn := n.notifyOn, channel := n.channel, recipients := n.recipients }

/-- Nothing of a snapshot is lost on the way through a definition. -/
theorem snapshotOf_rerunDefinition {db : Database} {id : Nat} {x : JobRun} {s : Snapshot}
    (parent : Option Nat) (hx : db.jobRuns.find id = some x) (hs : db.snapshot id = some s)
    (hwhole : s.Whole) : snapshotOf (rerunDefinition db id x parent) = s := by
  obtain ⟨x', hx', hjobRun, htaskRuns, hnotifications⟩ := Database.snapshot_eq_some.mp hs
  cases hx.symm.trans hx'
  have hjob : s.jobRun.jobId = x.jobId := by
    rw [← hjobRun]
    rfl
  have htasks : (snapshotOf (rerunDefinition db id x parent)).taskRuns = s.taskRuns := by
    rw [← htaskRuns]
    refine (List.map_map ..).trans (List.map_congr_left fun r hr => ?_)
    have hof : r.jobId = x.jobId :=
      (hwhole.taskRuns r.snapshot (htaskRuns ▸ List.mem_map_of_mem hr)).trans hjob
    cases r
    cases hof
    rfl
  have hnotify : (snapshotOf (rerunDefinition db id x parent)).notifications =
      s.notifications := by
    rw [← hnotifications]
    refine (List.map_map ..).trans (List.map_congr_left fun n hn => ?_)
    have hof : n.jobId = x.jobId :=
      (hwhole.notifications n.snapshot (hnotifications ▸ List.mem_map_of_mem hn)).trans hjob
    cases n
    cases hof
    rfl
  have hrun : (snapshotOf (rerunDefinition db id x parent)).jobRun = s.jobRun := by
    rw [← hjobRun]
    rfl
  cases s
  exact Snapshot.mk.injEq .. ▸ ⟨hrun, htasks, hnotify⟩

theorem head_selectJobRuns (db : Database) (id : Nat) :
    (db.selectJobRuns { filter := { id := some id }, limit := some 1 }).head? =
      db.jobRuns.find id := by
  have hrows : db.jobRuns.rows.filter (({ id := some id } : SelectJobRunsFilter).holds db) =
      db.jobRuns.rows.filter fun r => r.id == id :=
    List.filter_congr fun r _ => by
      simp [SelectJobRunsFilter.holds, Bool.beq_eq_decide_eq]
  show ((db.jobRuns.rows.filter _).take 1).head? = _
  rw [hrows, List.head?_take, if_neg Nat.one_ne_zero, List.head?_filter]
  rfl

variable (clock w) in
/-- A rerun comes to what inserting the definition it reads comes to. -/
theorem alone_rerunJob (id : Nat) (parent : Option Nat) :
    (∃ e, (resolveParentTaskRunAttempt parent).alone (undisturbed clock) w = some (.error e, w) ∧
      (rerunJob id parent).alone (undisturbed clock) w = some (.error e, w)) ∨
    (rerunJob id parent).alone (undisturbed clock) w = match w.db.jobRuns.find id with
      | none => some (.error ⟨s!"Job run {id} not found"⟩, w)
      | some x => (insertJobRunDefinition
          (rerunDefinition w.db id x (parent.filter w.db.hasTaskRunAttempt))).alone
            (undisturbed clock) w := by
  rcases alone_resolveParent clock w parent with ⟨e, he⟩ | hparent
  · exact .inl ⟨e, he, Prog.alone_bind_of_error he _⟩
  right
  have hjobRuns : (selectJobRun { id := some id }).alone (undisturbed clock) w =
      some (.ok (w.db.jobRuns.find id), w) := by
    have hselect : (selectJobRuns { filter := { id := some id }, limit := some 1 }).alone
        (undisturbed clock) w = some (.ok _, w) :=
      undisturbed_select _
    rw [← head_selectJobRuns]
    exact Prog.alone_bind_of_ok hselect _
  have htaskRuns : (selectTaskRuns { jobRunId := some id }).alone (undisturbed clock) w =
      some (.ok (w.db.taskRunsOf id), w) := by
    have hrows : w.db.selectTaskRuns { jobRunId := some id } = w.db.taskRunsOf id :=
      List.filter_congr fun r _ => by simp [SelectTaskRunsFilter.holds]
    rw [← hrows]
    exact undisturbed_select (.taskRuns _)
  have hnotifications : (selectJobRunNotifications { jobRunId := some id }).alone
      (undisturbed clock) w = some (.ok (w.db.notificationsOf id), w) := by
    have hrows : w.db.selectJobRunNotifications { jobRunId := some id } =
        w.db.notificationsOf id :=
      List.filter_congr fun r _ => by simp [SelectJobRunNotificationsFilter.holds]
    rw [← hrows]
    exact undisturbed_select (.jobRunNotifications _)
  unfold rerunJob
  rw [Prog.bind_eq, Prog.alone_bind_of_ok hparent, Prog.bind_eq, Prog.alone_bind_of_ok hjobRuns]
  cases w.db.jobRuns.find id with
  | none => rfl
  | some x =>
      exact (Prog.alone_bind_of_ok htaskRuns _).trans (Prog.alone_bind_of_ok hnotifications _)

variable (clock) in
/-- Of a run whose rows are all there a rerun is written, row by row. -/
theorem alone_rerunJob_of_whole {id : Nat} {s : Snapshot} (parent : Option Nat)
    (hrefs : w.db.References) (hs : w.db.snapshot id = some s) (hwhole : s.Whole) :
    (∃ e, (resolveParentTaskRunAttempt parent).alone (undisturbed clock) w = some (.error e, w) ∧
      (rerunJob id parent).alone (undisturbed clock) w = some (.error e, w)) ∨
    ∃ w', (rerunJob id parent).alone (undisturbed clock) w =
        some (.ok w.db.jobRuns.next, w') ∧
      w'.db.snapshot w.db.jobRuns.next = some s ∧
        Fresh none (parent.filter w.db.hasTaskRunAttempt) w'.db w.db.jobRuns.next := by
  rcases alone_rerunJob clock w id parent with hrefused | hrerun
  · exact .inl hrefused
  right
  obtain ⟨x, hx, -, htaskRuns, -⟩ := Database.snapshot_eq_some.mp hs
  let d := rerunDefinition w.db id x (parent.filter w.db.hasTaskRunAttempt)
  have hparent : d.parentTaskRunAttemptId.all w.db.hasTaskRunAttempt = true :=
    all_filter parent w.db.hasTaskRunAttempt
  have htasks : d.tasks.map (·.taskId) = s.taskRuns.map (·.taskId) := by
    rw [← htaskRuns]
    show ((w.db.taskRunsOf id).map rerunTaskDefinition).map _ = _
    rw [List.map_map, List.map_map]
    rfl
  obtain ⟨w', halone, hwritten⟩ := alone_insertJobRunDefinition clock d hrefs
    hparent (htasks ▸ hwhole.once)
  rw [hx] at hrerun
  refine ⟨w', hrerun.trans halone, ?_, hwritten.fresh⟩
  rw [hwritten.snapshot]
  exact congrArg some (snapshotOf_rerunDefinition _ hx hs hwhole)

end Rerun

end Flowlite
