import Flowlite.Theorems.Outcomes

/-!
# Runs come to an end

A status only ever moves forward, so no row changes often. And as long as a run is under
way, some row of it is next: the tasks of a job that is accepted wait for each other in no
ring, so they never all wait.
-/

namespace Flowlite

open Store Host Threads Crud Yaml Machine Outline Flowlite.Graph Relation

variable {lib : Library} {cond : (flowlite lib).Condition}

/-! ## Forward -/

/-- How far a run has come. A deleted one may still be released. -/
def Store.JobRunStatus.rank : JobRunStatus → Nat
  | .scheduled => 0
  | .deleted => 1
  | .queued => 2
  | .running => 3
  | .succeeded | .failed | .skipped | .aborted | .timedOut | .invalid => 4

def Store.TaskRunStatus.rank : TaskRunStatus → Nat
  | .planned => 0
  | .waiting => 1
  | .running => 2
  | .succeeded | .failed | .skipped | .aborted | .timedOut | .invalid => 3

def Store.TaskRunAttemptStatus.rank : TaskRunAttemptStatus → Nat
  | .queued => 0
  | .running => 1
  | .succeeded | .failed | .skipped | .aborted | .timedOut | .invalid => 2

theorem JobRunMove.forward {before after : JobRunStatus} (h : JobRunMove before after) :
    before.rank < after.rank := by
  cases h with
  | release hs => rcases hs with rfl | rfl <;> decide
  | drop hbefore hafter => rcases hbefore with rfl | rfl | rfl <;> rcases hafter with rfl | rfl <;> decide
  | start | delete => decide
  | settle hfinished hskipped hdeleted =>
      cases after with
      | scheduled | queued | running => cases hfinished
      | deleted => exact absurd rfl hdeleted
      | succeeded | failed | skipped | aborted | timedOut | invalid => decide

theorem rank_of_finished {status : TaskRunStatus} (h : status.isFinished = true) :
    status.rank = 3 := by
  cases status with
  | planned | waiting | running => cases h
  | succeeded | failed | skipped | aborted | timedOut | invalid => rfl

theorem TaskRunMove.forward {before after : TaskRunStatus} (h : TaskRunMove before after) :
    before.rank < after.rank := by
  cases h with
  | release | start => decide
  | drop hs => rcases hs with rfl | rfl <;> decide
  | settle hfinished _ =>
      rw [rank_of_finished hfinished]
      decide

/-- What a step can make of the status of an attempt. -/
inductive AttemptMove : TaskRunAttemptStatus → TaskRunAttemptStatus → Prop
  | drop {after : TaskRunAttemptStatus} : after = .skipped ∨ after = .invalid →
      AttemptMove .queued after
  | start : AttemptMove .queued .running
  | settle {status : TaskRunAttemptStatus} : status.isFinished = true →
      AttemptMove .running status

theorem AttemptMove.forward {before after : TaskRunAttemptStatus} (h : AttemptMove before after) :
    before.rank < after.rank := by
  cases h with
  | drop hs => rcases hs with rfl | rfl <;> decide
  | start => decide
  | settle hfinished =>
      cases after with
      | queued | running => cases hfinished
      | succeeded | failed | skipped | aborted | timedOut | invalid => decide

section Steps

variable {t : Tid} {o : Op} {w w' : World} {r : Result o}

theorem attempt_move (hb : cond.Le (base lib).established) (ha : cond.Le (attempts lib).established)
    (h : Performs cond t o w r w') {id : Nat} {a' : TaskRunAttempt}
    (ha' : w'.db.taskRunAttempts.find id = some a') (hid : id < w.db.taskRunAttempts.next) :
    ∃ a, w.db.taskRunAttempts.find id = some a ∧
      (a'.status = a.status ∨ AttemptMove a.status a'.status) := by
  obtain ⟨a, hfind, heq | ⟨f, i, rfl, -, hf, hset⟩⟩ := attemptStatus_performs h hid ha'
  · exact ⟨a, hfind, .inl heq⟩
  refine ⟨a, hfind, .inr ?_⟩
  have hfrom := (ha.1 _ _ _ _ _ h.2).2.1 f i rfl (by rw [hset]; rfl) id a hfind hf
  cases allowed_of hb h with
  | dropAttempt hs =>
      cases hset
      have hqueued : a.status = .queued := hfrom
      rw [hqueued]
      exact .drop hs
  | startAttempt =>
      have hqueued : a.status = .queued := hfrom
      rw [hqueued, ← Option.some.inj hset]
      exact .start
  | settleAttempt hfinished =>
      cases hset
      have hrunning : a.status = .running := hfrom
      rw [hrunning]
      exact .settle hfinished
  | recoverAttempt =>
      have hrunning : a.status = .running := hfrom
      rw [hrunning, ← Option.some.inj hset]
      exact .settle rfl
  | markStarted | wait => cases hset

end Steps

/-- Every row that is there before and after has the status it had, or one further on. -/
structure StatusesMoveForward (w w' : World) : Prop where
  jobRuns : ∀ id j j', w.db.jobRuns.find id = some j → w'.db.jobRuns.find id = some j' →
    j'.status = j.status ∨ j.status.rank < j'.status.rank
  taskRuns : ∀ id x x', w.db.taskRuns.find id = some x → w'.db.taskRuns.find id = some x' →
    x'.status = x.status ∨ x.status.rank < x'.status.rank
  attempts : ∀ id a a', w.db.taskRunAttempts.find id = some a →
    w'.db.taskRunAttempts.find id = some a' →
      a'.status = a.status ∨ a.status.rank < a'.status.rank

/-- The row with this id has this status or one further on, as long as it is there. -/
def Past {Row Status : Type} [Keyed Row] (table : Database → Table Row) (status : Row → Status)
    (rank : Status → Nat) (id : Nat) (before : Status) (w : World) : Prop :=
  id < (table w.db).next ∧ ∀ x, (table w.db).find id = some x →
    status x = before ∨ rank before < rank (status x)

theorem past_permanent {Row Status : Type} [Keyed Row] {table : Database → Table Row}
    {status : Row → Status} {rank : Status → Nat}
    (hnext : ∀ t o w r w', Performs cond t o w r w' → (table w.db).next ≤ (table w'.db).next)
    (hmove : ∀ t o w r w', Performs cond t o w r w' → ∀ id x',
      (table w'.db).find id = some x' → id < (table w.db).next →
        ∃ x, (table w.db).find id = some x ∧
          (status x' = status x ∨ rank (status x) < rank (status x')))
    (id : Nat) (before : Status) : Permanent cond (Past table status rank id before) where
  performs {_ _ _ _ _} h hpast := by
    refine ⟨lt_of_lt_of_le hpast.1 (hnext _ _ _ _ _ h), fun x' hx' => ?_⟩
    obtain ⟨x, hx, hstep⟩ := hmove _ _ _ _ _ h id x' hx' hpast.1
    rcases hstep with heq | hlt <;> rcases hpast.2 x hx with hsame | hfurther
    · exact .inl (heq.trans hsame)
    · exact .inr (heq ▸ hfurther)
    · exact .inr (hsame ▸ hlt)
    · exact .inr (hfurther.trans hlt)
  happens h hpast := by
    unfold Past
    rwa [happens_db h]

theorem statusesMoveForward_star (ho : Ordered cond) {c c' : (flowlite lib).Config}
    (hsteps : ReflTransGen (Next cond) c c') : StatusesMoveForward c.state c'.state := by
  have hg := ho.gated
  refine ⟨fun id j j' hj hj' => ?_, fun id x x' hx hx' => ?_, fun id a a' ha ha' => ?_⟩
  · have hkept : Permanent cond
        (Past Database.jobRuns JobRun.status JobRunStatus.rank id j.status) := past_permanent
      (fun _ _ _ _ _ h => jobRuns_next_le h)
      (fun _ _ _ _ _ h id x' hx' hid => by
        obtain ⟨x, hx, hstep⟩ := jobRun_move hg.base hg.jobRuns h hx' hid
        exact ⟨x, hx, hstep.imp_right JobRunMove.forward⟩) id j.status
    refine (hkept.star hsteps ⟨Table.lt_next_of_find hj, fun y hy => .inl ?_⟩).2 j' hj'
    rw [Option.some.inj (hy.symm.trans hj)]
  · have hkept : Permanent cond
        (Past Database.taskRuns TaskRun.status TaskRunStatus.rank id x.status) := past_permanent
      (fun _ _ _ _ _ h => taskRuns_next_le h)
      (fun _ _ _ _ _ h id x' hx' hid => by
        obtain ⟨hi, hpre, -⟩ := ho.taskRuns.1 _ _ _ _ _ h.2
        obtain ⟨x, hx, hstep⟩ := taskRun_move hg hi hpre h hx' hid
        exact ⟨x, hx, hstep.imp_right fun hmove => hmove.1.forward⟩) id x.status
    refine (hkept.star hsteps ⟨Table.lt_next_of_find hx, fun y hy => .inl ?_⟩).2 x' hx'
    rw [Option.some.inj (hy.symm.trans hx)]
  · have hkept : Permanent cond (Past Database.taskRunAttempts TaskRunAttempt.status
        TaskRunAttemptStatus.rank id a.status) := past_permanent
      (fun _ _ _ _ _ h => taskRunAttempts_next_le h)
      (fun _ _ _ _ _ h id x' hx' hid => by
        obtain ⟨x, hx, hstep⟩ := attempt_move hg.base ho.grounded.attempts h hx' hid
        exact ⟨x, hx, hstep.imp_right AttemptMove.forward⟩) id a.status
    refine (hkept.star hsteps ⟨Table.lt_next_of_find ha, fun y hy => .inl ?_⟩).2 a' ha'
    rw [Option.some.inj (hy.symm.trans ha)]

/-- **Statuses only move forward.** -/
theorem statuses_move_forward (lib : Library) (c c' : (flowlite lib).Config)
    (hc : Reachable (startsReleased lib) c)
    (hstar : ReflTransGen (Next (startsReleased lib)) c c') :
    StatusesMoveForward c.state c'.state := by
  obtain ⟨cond, hentails, ho⟩ := ordered_of_starts (.refl (startsReleased lib))
  exact statusesMoveForward_star ho (hentails.star hc hstar)

open Replay in
/-- A task run that is running goes on to succeed, and one that is waiting to be given an
attempt. -/
theorem statuses_move_forward_fork : ∃ c c' : (flowlite library).Config,
    taskRunStatusOf 1 c = some .running ∧ taskRunStatusOf 1 c' = some .succeeded ∧
      statusOf 1 c = some .running ∧ statusOf 1 c' = some .failed ∧
      StatusesMoveForward c.state c'.state := by
  have hrun : (replay (startsReleased library) forked).any (fun c =>
      decide (taskRunStatusOf 1 c = some .running ∧ statusOf 1 c = some .running) &&
        (exec (startsReleased library) c endsExtractFirst).any fun c' =>
          decide (taskRunStatusOf 1 c' = some .succeeded ∧ statusOf 1 c' = some .failed)) =
      true := by
    decide +kernel
  obtain ⟨c, c', hc, hstar, hbefore, hafter⟩ := star_of_replay hrun
  obtain ⟨htask, hjob⟩ := of_decide_eq_true hbefore
  obtain ⟨htask', hjob'⟩ := of_decide_eq_true hafter
  exact ⟨c, c', htask, htask', hjob, hjob', statuses_move_forward library c c' hc hstar⟩

/-! ## Nothing is stuck -/

/-- Some row of the run is next. -/
inductive Moves (db : Database) (j : JobRun) : Prop
  /-- All its task runs are finished, and the run is next. -/
  | jobRun {status : JobRunStatus} : (∀ x ∈ db.taskRunsOf j.id, x.status.isFinished = true) →
      JobRunMonitor.deriveNextStatus (db.taskRunsOf j.id) = some status →
      status.isFinished = true → Moves db j
  /-- Everything a waiting task run waits for is there and has settled. -/
  | waiting {x : TaskRun} : x ∈ db.taskRunsOf j.id → x.status = .waiting →
      (∀ taskId ∈ x.dependsOn, ∃ y, db.DependsOn x y ∧ y.taskId = taskId) →
      (∀ y, db.DependsOn x y → y.status.isFinished = true) → Moves db j
  /-- A running task run has no attempt that could still end, so it settles or has another. -/
  | running {x : TaskRun} : x ∈ db.taskRunsOf j.id → x.status = .running →
      (∀ a ∈ db.attemptsOf x.id, a.status.isFinished = true) → Moves db j
  /-- An attempt is queued, or running. -/
  | attempt {x : TaskRun} {a : TaskRunAttempt} : x ∈ db.taskRunsOf j.id → x.status = .running →
      a ∈ db.attemptsOf x.id → a.status = .queued ∨ a.status = .running → Moves db j

/-- The rule settles a run all of whose task runs are finished. -/
theorem derived_of_finished {xs : List TaskRun} (h : ∀ x ∈ xs, x.status.isFinished = true) :
    ∃ status, JobRunMonitor.deriveNextStatus xs = some status ∧ status.isFinished = true := by
  rcases derived_cases xs with hrunning | ⟨status, hderived, hstatus⟩
  · have hall : xs.all (fun x => x.status.isFinished) = true := List.all_eq_true.mpr h
    unfold JobRunMonitor.deriveNextStatus at hrunning
    rw [hall] at hrunning
    split_ifs at hrunning
    all_goals simp_all
  · refine ⟨status, hderived, ?_⟩
    rcases hstatus with rfl | rfl | rfl | rfl | rfl <;> rfl

/-- What a task run depends on is a task run of the same run, and its task what that task
awaits. -/
theorem dependsOn_awaits {db : Database} {id : Nat} {tasks : List Task}
    (hwritten : WrittenFrom db id tasks) (ht : AcceptedTasks tasks) {x y : TaskRun}
    (hx : x ∈ db.taskRunsOf id) (hdepends : db.DependsOn x y) {task : Task} (htask : task ∈ tasks)
    (hid : x.taskId = task.taskId) :
    y ∈ db.taskRunsOf id ∧ ∃ dep ∈ tasks, y.taskId = dep.taskId ∧ Awaits tasks task dep := by
  obtain ⟨-, hy, hrun, hdep⟩ := hdepends
  have hmem : y ∈ db.taskRunsOf id := mem_taskRunsOf.mpr ⟨hy, hrun.trans (mem_taskRunsOf.mp hx).2⟩
  obtain ⟨dep, hdepTask, hdepId, -⟩ := hwritten.run y hmem
  rw [(hwritten.dependsOn ht hx htask hid).1, hdepId] at hdep
  exact ⟨hmem, dep, hdepTask, hdepId, htask, hdepTask, hdep⟩

/-- Every dependency of a task run is there. -/
theorem dependency_there {db : Database} {id : Nat} {tasks : List Task}
    (hwritten : WrittenFrom db id tasks) (ht : AcceptedTasks tasks) {x : TaskRun}
    (hx : x ∈ db.taskRunsOf id) {taskId : String} (hdep : taskId ∈ x.dependsOn) :
    ∃ y, db.DependsOn x y ∧ y.taskId = taskId := by
  obtain ⟨task, htask, -, hdeps, -⟩ := hwritten.run x hx
  obtain ⟨dep, hdepTask, rfl⟩ := ht.closed task htask taskId (hdeps ▸ hdep)
  obtain ⟨y, hy, hid⟩ := hwritten.each dep hdepTask
  obtain ⟨hrow, hrun⟩ := mem_taskRunsOf.mp hx
  obtain ⟨hrow', hrun'⟩ := mem_taskRunsOf.mp hy
  exact ⟨y, ⟨hrow, hrow', hrun'.trans hrun.symm, hid ▸ hdep⟩, hid⟩

/-- Of the task runs of a kind, one depends on none of them. -/
theorem exists_last_taskRun {db : Database} {id : Nat} {tasks : List Task}
    (hwritten : WrittenFrom db id tasks) (ht : AcceptedTasks tasks) {kind : TaskRun → Prop}
    {x : TaskRun} (hx : x ∈ db.taskRunsOf id) (hkind : kind x) :
    ∃ y ∈ db.taskRunsOf id, kind y ∧ ∀ z, db.DependsOn y z → ¬ kind z := by
  obtain ⟨task, htask, hid, -⟩ := hwritten.run x hx
  obtain ⟨last, ⟨hlast, y, hy, hyid, hykind⟩, hnone⟩ := ht.acyclic.exists_last tasks
    (fun _ _ hawaits => hawaits.1)
    (P := fun task => task ∈ tasks ∧ ∃ y ∈ db.taskRunsOf id, y.taskId = task.taskId ∧ kind y)
    ⟨htask, x, hx, hid, hkind⟩
  refine ⟨y, hy, hykind, fun z hdepends hz => ?_⟩
  obtain ⟨hmem, dep, hdep, hdepId, hawaits⟩ :=
    dependsOn_awaits hwritten ht hy hdepends hlast hyid
  exact hnone dep hawaits ⟨hdep, z, hmem, hdepId, hz⟩

/-- **Nothing is stuck**: in every state the system reaches, some row of a running run is next. -/
theorem no_stuck_run (lib : Library) (config : SeedConfig) (jobPath : String) (jobYaml : JobYaml)
    (job : Job) (tasks : List Task) (hseed : seedJob config jobPath jobYaml = .ok (job, tasks))
    (c : (flowlite lib).Config)
    (hc : Reachable ((startsReleased lib).and (awaitsSubmission false lib)) c) (j : JobRun)
    (hj : j ∈ c.state.db.jobRuns.rows) (hrunning : j.status = .running)
    (hwritten : WrittenFrom c.state.db j.id tasks) : Moves c.state.db j := by
  have hawaits := Condition.and_le_right (startsReleased lib) (awaitsSubmission false lib)
  obtain ⟨cond, hentails, hcomplete⟩ := complete_of_starts (Condition.and_le_left _ _) hawaits
  have hreach := hentails.reachable hc
  have hg := hcomplete.ordered.gated
  have ht := acceptedTasks hseed
  by_cases hfinished : ∀ x ∈ c.state.db.taskRunsOf j.id, x.status.isFinished = true
  · obtain ⟨status, hderived, hdone⟩ := derived_of_finished hfinished
    exact .jobRun hfinished hderived hdone
  obtain ⟨x, hx, hunfinished⟩ : ∃ x ∈ c.state.db.taskRunsOf j.id, x.status.isFinished = false := by
    simpa using hfinished
  have hplan : ∀ x ∈ c.state.db.taskRunsOf j.id, x.status ≠ .planned := fun x hx =>
    ((((submissions_valid hg.base hg.jobRuns (hentails.le.trans hawaits)).inv hreach).1 j.id j
      (Table.find_of_mem hj)).2 (.inl hrunning)).2 x (mem_taskRunsOf.mp hx).1 (mem_taskRunsOf.mp hx).2
  by_cases hany : ∃ x ∈ c.state.db.taskRunsOf j.id, x.status = .running
  · obtain ⟨x, hx, hrun⟩ := hany
    by_cases hattempts : ∀ a ∈ c.state.db.attemptsOf x.id, a.status.isFinished = true
    · exact .running hx hrun hattempts
    · obtain ⟨a, ha, hactive⟩ : ∃ a ∈ c.state.db.attemptsOf x.id, a.status.isFinished = false := by
        simpa using hattempts
      refine .attempt hx hrun ha ?_
      cases hstatus : a.status with
      | queued => exact .inl rfl
      | running => exact .inr rfl
      | succeeded | failed | skipped | aborted | timedOut | invalid =>
          rw [hstatus] at hactive
          cases hactive
  · -- what is unfinished waits, and some of it for nothing that waits
    obtain ⟨y, hy, hykind, hlast⟩ :=
      @exists_last_taskRun _ _ _ hwritten ht (·.status.isFinished = false) _ hx hunfinished
    refine .waiting hy ?_ (fun taskId hdep => dependency_there hwritten ht hy hdep)
      fun z hdepends => by simpa using hlast z hdepends
    cases hstatus : y.status with
    | waiting => rfl
    | planned => exact absurd hstatus (hplan y hy)
    | running => exact absurd ⟨y, hy, hstatus⟩ hany
    | succeeded | failed | skipped | aborted | timedOut | invalid =>
        rw [hstatus] at hykind
        cases hykind

open Replay in
/-- While its commands run, `load` waits, and the run has attempts that are running. -/
theorem no_stuck_run_fork : ∃ (c : (flowlite library).Config) (j : JobRun),
    taskRunStatusOf 3 c = some .waiting ∧ j.status = .running ∧ Moves c.state.db j := by
  have hrun : (replay ((startsReleased library).and (awaitsSubmission false library)) forked).any
      (fun c => decide (taskRunStatusOf 3 c = some .waiting) &&
        (c.state.db.jobRuns.find 1).any fun j => decide (j.status = .running ∧
          WrittenFrom c.state.db j.id forkConfig.tasks)) = true := by
    decide +kernel
  obtain ⟨c, hc, hcheck⟩ := reachable_of_replay hrun
  obtain ⟨hload, hjob⟩ := Bool.and_eq_true_iff.mp hcheck
  obtain ⟨j, hfind, hj⟩ := (Option.any_eq_true _ _).mp hjob
  obtain ⟨hrunning, hwritten⟩ := of_decide_eq_true hj
  exact ⟨c, j, of_decide_eq_true hload, hrunning,
    no_stuck_run library seedConfig "jobs/etl.yaml" forkFile (jobRow seedConfig.jobDefaults forkFile)
      forkConfig.tasks rfl c hc j (Table.mem_of_find hfind) hrunning hwritten⟩

/-! ## What a skip goes back to -/

/-- Behind the task run, there is one that has gone wrong by itself: its last attempt has. -/
def GoesBackToFailure (w : World) (x : TaskRun) : Prop :=
  ∃ y, TransGen w.db.DependsOn x y ∧ y.status ≠ .skipped ∧
    TaskRunDispatcher.isUnsuccessful y.status = true ∧
      ∃ status, status.settles = some y.status ∧ LastIs status y w

/-- **Every skip goes back to a failure**, in a run of a job that is accepted and that nobody has
stopped or deleted. -/
theorem skip_goes_back_to_failure (lib : Library) (config : SeedConfig) (jobPath : String)
    (jobYaml : JobYaml) (job : Job) (tasks : List Task)
    (hseed : seedJob config jobPath jobYaml = .ok (job, tasks)) (c : (flowlite lib).Config)
    (hc : Reachable (startsReleased lib) c) (id : Nat) (hwritten : WrittenFrom c.state.db id tasks)
    (hstop : ¬ IsStopped c.state id) (hkept : ¬ c.state.Deleted id) (x : TaskRun)
    (hx : x ∈ c.state.db.taskRunsOf id) (hskipped : x.status = .skipped) :
    GoesBackToFailure c.state x := by
  obtain ⟨cond, hentails, ho⟩ := ordered_of_starts (.refl (startsReleased lib))
  have hreach := hentails.reachable hc
  -- the last skipped task run on the way back
  obtain ⟨y, hy, ⟨hyskipped, hback⟩, hlast⟩ :=
    @exists_last_taskRun _ _ _ hwritten (acceptedTasks hseed)
      (fun y => y.status = .skipped ∧ ReflTransGen c.state.db.DependsOn x y) _ hx ⟨hskipped, .refl⟩
  obtain ⟨hrow, hrun⟩ := mem_taskRunsOf.mp hy
  rcases ((dependencies_valid ho.gated ho.taskRuns).inv hreach y hrow).2 hyskipped with
    hstopped | hdeleted | ⟨taskId, hdep, bad, hbad, z, hz, hsame, rfl, rfl⟩
  · exact absurd (hrun ▸ hstopped) hstop
  · exact absurd (hrun ▸ hdeleted) hkept
  have hdepends : c.state.db.DependsOn y z := ⟨hrow, hz, hsame, hdep⟩
  have hnot : z.status ≠ .skipped := fun hzskipped =>
    hlast z hdepends ⟨hzskipped, hback.tail hdepends⟩
  refine ⟨z, .tail' hback hdepends, hnot, hbad, ?_⟩
  refine (verdicts_valid ho).inv hreach z hz ?_ hnot
  cases hstatus : z.status with
  | planned | waiting | running | succeeded =>
      rw [hstatus] at hbad
      cases hbad
  | failed | skipped | aborted | timedOut | invalid => rfl

open Replay in
/-- `load` was skipped because of `fetch`. -/
theorem skip_goes_back_to_failure_fork : ∃ (c : (flowlite library).Config) (x : TaskRun),
    x.taskId = "load" ∧ GoesBackToFailure c.state x := by
  have hrun : (replay (startsReleased library) (forked ++ endsFetchFirst)).any (fun c =>
      decide (WrittenFrom c.state.db 1 forkConfig.tasks ∧ ¬ IsStopped c.state 1 ∧
        ¬ c.state.Deleted 1) &&
      (c.state.db.taskRuns.find 3).any fun x =>
        decide (x.jobRunId = 1 ∧ x.taskId = "load" ∧ x.status = .skipped)) = true := by
    decide +kernel
  obtain ⟨c, hc, hcheck⟩ := reachable_of_replay hrun
  obtain ⟨hof, htask⟩ := Bool.and_eq_true_iff.mp hcheck
  obtain ⟨hwritten, hstop, hkept⟩ := of_decide_eq_true hof
  obtain ⟨x, hfind, hx⟩ := (Option.any_eq_true _ _).mp htask
  obtain ⟨hjob, hload, hskipped⟩ := of_decide_eq_true hx
  exact ⟨c, x, hload, skip_goes_back_to_failure library seedConfig "jobs/etl.yaml" forkFile
    (jobRow seedConfig.jobDefaults forkFile) forkConfig.tasks rfl c hc 1 hwritten hstop hkept x
    (mem_taskRunsOf.mpr ⟨Table.mem_of_find hfind, hjob⟩) hskipped⟩

end Flowlite
