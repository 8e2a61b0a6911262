import Flowlite.Store.Rows

/-!
# What the services read

The disk database, and the `SELECT`s over it with the filters, sorts and limits
the code pushes onto each of them. A filter field that is `none` adds no clause.
-/

namespace Flowlite.Store

/-- The disk database. -/
structure Database where
  jobRuns : Table JobRun
  taskRuns : Table TaskRun
  taskRunAttempts : Table TaskRunAttempt
  jobRunStops : Table JobRunStop
  taskRunAttemptOutputs : Table TaskRunAttemptOutput
  jobRunNotifications : Table JobRunNotification

/-- The database the migrations create. -/
def Database.empty : Database where
  jobRuns := .empty
  taskRuns := .empty
  taskRunAttempts := .empty
  jobRunStops := .empty
  taskRunAttemptOutputs := .empty
  jobRunNotifications := .empty

/-- `AND column = …`, pushed only when the filter gives a value. -/
def clause {α : Type} (given : Option α) (holds : α → Bool) : Bool :=
  match given with
  | none => true
  | some a => holds a

@[simp] theorem clause_none {α : Type} (holds : α → Bool) : clause none holds = true := rfl

@[simp] theorem clause_some {α : Type} (a : α) (holds : α → Bool) :
    clause (some a) holds = holds a := rfl

/-- `LIMIT` and `OFFSET`; SQLite reads a negative limit as none. -/
def window {α : Type} (limit offset : Option Int) (rows : List α) : List α :=
  let rest := rows.drop ((offset.getD 0).toNat)
  match limit with
  | none => rest
  | some n => if n < 0 then rest else rest.take n.toNat

theorem window_sublist {α : Type} (limit offset : Option Int) (rows : List α) :
    (window limit offset rows).Sublist rows := by
  unfold window
  cases limit with
  | none => exact List.drop_sublist ..
  | some n =>
      dsimp only
      split
      · exact List.drop_sublist ..
      · exact (List.take_sublist ..).trans (List.drop_sublist ..)

inductive SelectSort
  | id
  | idDesc
  deriving DecidableEq

/-- Rows of a table, which a scan yields in key order. -/
def sorted {α : Type} (sort : Option SelectSort) (rows : List α) : List α :=
  match sort with
  | some .idDesc => rows.reverse
  | some .id | none => rows

/-! ## Job runs -/

structure SelectJobRunsFilter where
  id : Option Nat := none
  jobId : Option String := none
  status : Option JobRunStatus := none
  statuses : Option (List JobRunStatus) := none
  scheduleId : Option String := none
  scheduledAt : Option Instant := none
  /-- Submitted by a task of this job run, through any of its attempts. -/
  parentJobRunId : Option Nat := none

/-- `push_job_run_filter`. -/
def SelectJobRunsFilter.holds (f : SelectJobRunsFilter) (db : Database) (r : JobRun) : Bool :=
  clause f.jobId (fun v => r.jobId = v) &&
  clause f.status (fun v => r.status = v) &&
  clause f.statuses (fun v => v.contains r.status) &&
  clause f.id (fun v => r.id = v) &&
  clause f.scheduleId (fun v => r.scheduleId = some v) &&
  clause f.scheduledAt (fun v => r.scheduledAt = v) &&
  clause f.parentJobRunId (fun v =>
    db.taskRunAttempts.rows.any fun a => a.jobRunId = v && r.parentTaskRunAttemptId = some a.id)

structure SelectJobRuns where
  filter : SelectJobRunsFilter
  sort : Option SelectSort := none
  limit : Option Int := none
  offset : Option Int := none

def Database.selectJobRuns (db : Database) (q : SelectJobRuns) : List JobRun :=
  window q.limit q.offset (sorted q.sort (db.jobRuns.rows.filter (q.filter.holds db)))

theorem Database.mem_selectJobRuns {db : Database} {q : SelectJobRuns} {r : JobRun}
    (h : r ∈ db.selectJobRuns q) : db.jobRuns.find r.id = some r ∧ q.filter.holds db r = true := by
  have h := (window_sublist _ _ _).mem h
  have h : r ∈ db.jobRuns.rows.filter (q.filter.holds db) := by
    unfold sorted at h
    split at h
    · exact List.mem_reverse.mp h
    · exact h
    · exact h
  obtain ⟨hr, hf⟩ := List.mem_filter.mp h
  exact ⟨Table.find_of_mem hr, hf⟩

theorem Database.selectJobRuns_distinct (db : Database) (q : SelectJobRuns) :
    (db.selectJobRuns q).Pairwise fun a b => a.id ≠ b.id := by
  have hrows : (db.jobRuns.rows.filter (q.filter.holds db)).Pairwise fun a b => a.id ≠ b.id :=
    (db.jobRuns.ordered.filter _).imp fun h => ne_of_lt h
  refine List.Pairwise.sublist (window_sublist _ _ _) ?_
  unfold sorted
  split
  · exact List.pairwise_reverse.mpr (hrows.imp fun h => h.symm)
  · exact hrows
  · exact hrows

def Database.countJobRuns (db : Database) (filter : SelectJobRunsFilter) : Nat :=
  (db.jobRuns.rows.filter (filter.holds db)).length

/-- Each id where it comes first. -/
def Database.selectJobRunJobIds (db : Database) (filter : SelectJobRunsFilter) : List String :=
  ((db.jobRuns.rows.filter (filter.holds db)).map (·.jobId)).reverse.dedup.reverse

/-- Without a limit, every row the filter holds of is answered. -/
theorem Database.mem_selectJobRuns_all {db : Database} {f : SelectJobRunsFilter}
    {sort : Option SelectSort} {r : JobRun} (hr : r ∈ db.jobRuns.rows)
    (hf : f.holds db r = true) : r ∈ db.selectJobRuns { filter := f, sort } := by
  have hmem : r ∈ db.jobRuns.rows.filter (f.holds db) := List.mem_filter.mpr ⟨hr, hf⟩
  unfold Database.selectJobRuns window sorted
  dsimp only [Option.getD_none, Int.toNat_zero, List.drop_zero]
  split
  · exact List.mem_reverse.mpr hmem
  · exact hmem
  · exact hmem

/-- `select_job_run_descendants`: each run comes after the run that submitted it.
A run is pushed once, by the one run that submitted it, so one step per row of
the table empties the stack. -/
def Database.descendants (db : Database) : Nat → List Nat → List JobRun → List JobRun
  | 0, _, found => found
  | _ + 1, [], found => found
  | fuel + 1, parentId :: parentIds, found =>
      let children := db.selectJobRuns
        { filter := { parentJobRunId := some parentId }, sort := some .id }
      db.descendants fuel ((children.map (·.id)).reverse ++ parentIds) (found ++ children)

def Database.selectJobRunDescendants (db : Database) (jobRunId : Nat) : List JobRun :=
  db.descendants (db.jobRuns.rows.length + 1) [jobRunId] []

/-! ## Task runs -/

structure SelectTaskRunsFilter where
  id : Option Nat := none
  jobRunId : Option Nat := none
  jobId : Option String := none
  taskId : Option String := none
  status : Option TaskRunStatus := none

def SelectTaskRunsFilter.holds (f : SelectTaskRunsFilter) (r : TaskRun) : Bool :=
  clause f.id (fun v => r.id = v) &&
  clause f.jobRunId (fun v => r.jobRunId = v) &&
  clause f.jobId (fun v => r.jobId = v) &&
  clause f.taskId (fun v => r.taskId = v) &&
  clause f.status (fun v => r.status = v)

def Database.selectTaskRuns (db : Database) (filter : SelectTaskRunsFilter) : List TaskRun :=
  db.taskRuns.rows.filter filter.holds

/-! ## Task run attempts -/

structure SelectTaskRunAttemptsFilter where
  id : Option Nat := none
  taskRunId : Option Nat := none
  jobRunId : Option Nat := none
  taskId : Option String := none
  status : Option TaskRunAttemptStatus := none

def SelectTaskRunAttemptsFilter.holds (f : SelectTaskRunAttemptsFilter)
    (r : TaskRunAttempt) : Bool :=
  clause f.id (fun v => r.id = v) &&
  clause f.taskRunId (fun v => r.taskRunId = v) &&
  clause f.jobRunId (fun v => r.jobRunId = v) &&
  clause f.taskId (fun v => r.taskId = v) &&
  clause f.status (fun v => r.status = v)

inductive SelectTaskRunAttemptsSort
  | id
  | attempt
  deriving DecidableEq

/-- Put a row behind every row of the same or a lower attempt. -/
def insertByAttempt (r : TaskRunAttempt) : List TaskRunAttempt → List TaskRunAttempt
  | [] => [r]
  | a :: rest => if r.attempt < a.attempt then r :: a :: rest else a :: insertByAttempt r rest

/-- `ORDER BY attempt ASC`. -/
def orderByAttempt (rows : List TaskRunAttempt) : List TaskRunAttempt :=
  rows.foldl (fun acc r => insertByAttempt r acc) []

def Database.selectTaskRunAttempts (db : Database) (filter : SelectTaskRunAttemptsFilter)
    (sort : Option SelectTaskRunAttemptsSort) : List TaskRunAttempt :=
  let rows := db.taskRunAttempts.rows.filter filter.holds
  match sort with
  | some .attempt => orderByAttempt rows
  | some .id | none => rows

theorem insertByAttempt_perm (r : TaskRunAttempt) (rows : List TaskRunAttempt) :
    (insertByAttempt r rows).Perm (r :: rows) := by
  induction rows with
  | nil => exact List.Perm.refl _
  | cons a rest ih =>
      unfold insertByAttempt
      split
      · exact List.Perm.refl _
      · exact (ih.cons a).trans (List.Perm.swap ..)

theorem orderByAttempt_perm (rows : List TaskRunAttempt) : (orderByAttempt rows).Perm rows := by
  suffices ∀ acc : List TaskRunAttempt,
      (rows.foldl (fun acc r => insertByAttempt r acc) acc).Perm (acc ++ rows) by
    simpa [orderByAttempt] using this []
  induction rows with
  | nil => simp
  | cons r rest ih =>
      intro acc
      refine (ih _).trans ?_
      have hmiddle : (acc ++ r :: rest).Perm (r :: (acc ++ rest)) := List.perm_middle
      exact ((insertByAttempt_perm r acc).append_right rest).trans hmiddle.symm

theorem insertByAttempt_sorted (r : TaskRunAttempt) {rows : List TaskRunAttempt}
    (h : rows.Pairwise fun a b => a.attempt ≤ b.attempt) :
    (insertByAttempt r rows).Pairwise fun a b => a.attempt ≤ b.attempt := by
  induction rows with
  | nil => exact List.pairwise_singleton ..
  | cons a rest ih =>
      obtain ⟨ha, hrest⟩ := List.pairwise_cons.mp h
      unfold insertByAttempt
      split
      · rename_i hlt
        refine List.pairwise_cons.mpr ⟨fun b hb => ?_, h⟩
        rcases List.mem_cons.mp hb with rfl | hb
        · exact hlt.le
        · exact hlt.le.trans (ha b hb)
      · rename_i hle
        refine List.pairwise_cons.mpr ⟨fun b hb => ?_, ih hrest⟩
        rcases List.mem_cons.mp ((insertByAttempt_perm r rest).mem_iff.mp hb) with rfl | hb
        · exact not_lt.mp hle
        · exact ha b hb

theorem orderByAttempt_sorted (rows : List TaskRunAttempt) :
    (orderByAttempt rows).Pairwise fun a b => a.attempt ≤ b.attempt := by
  suffices ∀ acc : List TaskRunAttempt, (acc.Pairwise fun a b => a.attempt ≤ b.attempt) →
      (rows.foldl (fun acc r => insertByAttempt r acc) acc).Pairwise
        fun a b => a.attempt ≤ b.attempt from
    this [] List.Pairwise.nil
  induction rows with
  | nil => exact fun acc h => h
  | cons r rest ih => exact fun acc h => ih _ (insertByAttempt_sorted r h)

theorem Database.selectTaskRunAttempts_perm (db : Database) (f : SelectTaskRunAttemptsFilter)
    (sort : Option SelectTaskRunAttemptsSort) :
    (db.selectTaskRunAttempts f sort).Perm (db.taskRunAttempts.rows.filter f.holds) := by
  unfold Database.selectTaskRunAttempts
  split
  · exact orderByAttempt_perm _
  · exact List.Perm.refl _
  · exact List.Perm.refl _

theorem Database.mem_selectTaskRunAttempts {db : Database} {f : SelectTaskRunAttemptsFilter}
    {sort : Option SelectTaskRunAttemptsSort} {a : TaskRunAttempt} :
    a ∈ db.selectTaskRunAttempts f sort ↔
      db.taskRunAttempts.find a.id = some a ∧ f.holds a = true := by
  rw [(db.selectTaskRunAttempts_perm f sort).mem_iff, List.mem_filter]
  exact and_congr_left' ⟨Table.find_of_mem, Table.mem_of_find⟩

theorem Database.selectTaskRunAttempts_distinct (db : Database) (f : SelectTaskRunAttemptsFilter)
    (sort : Option SelectTaskRunAttemptsSort) :
    (db.selectTaskRunAttempts f sort).Pairwise fun a b => a.id ≠ b.id := by
  refine (db.selectTaskRunAttempts_perm f sort).symm.pairwise ?_ fun {a b} h => h.symm
  exact (db.taskRunAttempts.ordered.filter _).imp fun h => ne_of_lt h

theorem Database.mem_selectTaskRuns {db : Database} {f : SelectTaskRunsFilter} {r : TaskRun} :
    r ∈ db.selectTaskRuns f ↔ db.taskRuns.find r.id = some r ∧ f.holds r = true := by
  unfold Database.selectTaskRuns
  rw [List.mem_filter]
  exact and_congr_left' ⟨Table.find_of_mem, Table.mem_of_find⟩

theorem Database.selectTaskRuns_distinct (db : Database) (f : SelectTaskRunsFilter) :
    (db.selectTaskRuns f).Pairwise fun a b => a.id ≠ b.id :=
  (db.taskRuns.ordered.filter _).imp fun h => ne_of_lt h

/-! ## What hangs off a run -/

structure SelectJobRunStopsFilter where
  id : Option Nat := none
  jobRunId : Option Nat := none

def SelectJobRunStopsFilter.holds (f : SelectJobRunStopsFilter) (r : JobRunStop) : Bool :=
  clause f.id (fun v => r.id = v) && clause f.jobRunId (fun v => r.jobRunId = v)

def Database.selectJobRunStops (db : Database) (filter : SelectJobRunStopsFilter)
    (limit : Option Int) : List JobRunStop :=
  window limit none (db.jobRunStops.rows.filter filter.holds)

structure SelectTaskRunAttemptOutputsFilter where
  id : Option Nat := none
  taskRunAttemptId : Option Nat := none
  taskRunId : Option Nat := none
  jobRunId : Option Nat := none
  jobId : Option String := none
  taskId : Option String := none
  stream : Option TaskRunAttemptOutputStream := none

def SelectTaskRunAttemptOutputsFilter.holds (f : SelectTaskRunAttemptOutputsFilter)
    (r : TaskRunAttemptOutput) : Bool :=
  clause f.id (fun v => r.id = v) &&
  clause f.taskRunAttemptId (fun v => r.taskRunAttemptId = v) &&
  clause f.taskRunId (fun v => r.taskRunId = v) &&
  clause f.jobRunId (fun v => r.jobRunId = v) &&
  clause f.jobId (fun v => r.jobId = v) &&
  clause f.taskId (fun v => r.taskId = v) &&
  clause f.stream (fun v => r.stream = v)

def Database.selectTaskRunAttemptOutputs (db : Database)
    (filter : SelectTaskRunAttemptOutputsFilter) : List TaskRunAttemptOutput :=
  db.taskRunAttemptOutputs.rows.filter filter.holds

structure SelectJobRunNotificationsFilter where
  id : Option Nat := none
  jobRunId : Option Nat := none
  notifyOn : Option NotifyOn := none
  channel : Option NotificationChannel := none
  status : Option JobRunNotificationStatus := none

def SelectJobRunNotificationsFilter.holds (f : SelectJobRunNotificationsFilter)
    (r : JobRunNotification) : Bool :=
  clause f.id (fun v => r.id = v) &&
  clause f.jobRunId (fun v => r.jobRunId = v) &&
  clause f.notifyOn (fun v => r.notifyOn = v) &&
  clause f.channel (fun v => r.channel = v) &&
  clause f.status (fun v => r.status = v)

def Database.selectJobRunNotifications (db : Database)
    (filter : SelectJobRunNotificationsFilter) : List JobRunNotification :=
  db.jobRunNotifications.rows.filter filter.holds

/-! ## One read of the database -/

inductive Query
  | jobRuns (q : SelectJobRuns)
  | countJobRuns (filter : SelectJobRunsFilter)
  | jobRunJobIds (filter : SelectJobRunsFilter)
  | taskRuns (filter : SelectTaskRunsFilter)
  | taskRunAttempts (filter : SelectTaskRunAttemptsFilter)
      (sort : Option SelectTaskRunAttemptsSort)
  | jobRunStops (filter : SelectJobRunStopsFilter) (limit : Option Int)
  | taskRunAttemptOutputs (filter : SelectTaskRunAttemptOutputsFilter)
  | jobRunNotifications (filter : SelectJobRunNotificationsFilter)

abbrev Query.Answer : Query → Type
  | .jobRuns _ => List JobRun
  | .countJobRuns _ => Nat
  | .jobRunJobIds _ => List String
  | .taskRuns _ => List TaskRun
  | .taskRunAttempts _ _ => List TaskRunAttempt
  | .jobRunStops _ _ => List JobRunStop
  | .taskRunAttemptOutputs _ => List TaskRunAttemptOutput
  | .jobRunNotifications _ => List JobRunNotification

def Query.run (db : Database) : (q : Query) → q.Answer
  | .jobRuns q => db.selectJobRuns q
  | .countJobRuns filter => db.countJobRuns filter
  | .jobRunJobIds filter => db.selectJobRunJobIds filter
  | .taskRuns filter => db.selectTaskRuns filter
  | .taskRunAttempts filter sort => db.selectTaskRunAttempts filter sort
  | .jobRunStops filter limit => db.selectJobRunStops filter limit
  | .taskRunAttemptOutputs filter => db.selectTaskRunAttemptOutputs filter
  | .jobRunNotifications filter => db.selectJobRunNotifications filter

end Flowlite.Store
