import Flowlite.Graph.Settling
import Flowlite.Theorems.LevelsAgree
import Flowlite.Theorems.TaskGraphs

/-!
# What a run comes to

Seven services poll the same rows, each when it comes around to it. What a run comes to
does not depend on that: it follows from what its attempts end as, by the rule `Settles`
that a task behind one that has gone wrong is passed over, and any other is what its last
attempt is. So two runs of the same tasks whose attempts end alike end alike.
-/

namespace Flowlite

open Store Host Threads Crud Yaml Machine Outline Flowlite.Graph Relation

variable {lib : Library}

/-! ## The tasks of a job that is accepted -/

/-- A task and one it waits for. -/
def Awaits (tasks : List Task) (task dep : Task) : Prop :=
  task ∈ tasks ∧ dep ∈ tasks ∧ dep.taskId ∈ task.dependsOn

/-- What is known of the tasks of a job that is accepted. -/
structure AcceptedTasks (tasks : List Task) : Prop where
  named : (tasks.map (·.taskId)).Nodup
  closed : ∀ task ∈ tasks, ∀ taskId ∈ task.dependsOn, ∃ dep ∈ tasks, dep.taskId = taskId
  acyclic : Acyclic (Awaits tasks)

theorem acceptedTasks {config : SeedConfig} {jobPath : String} {jobYaml : JobYaml} {job : Job}
    {tasks : List Task} (h : seedJob config jobPath jobYaml = .ok (job, tasks)) :
    AcceptedTasks tasks := by
  obtain ⟨hvalid, rfl⟩ : validateJobTasks jobYaml = .ok () ∧
      jobYaml.tasks.map (taskRow config.jobDefaults jobYaml.id) = tasks := by
    unfold seedJob withContext at h
    cases htasks : validateJobTasks jobYaml with
    | error e =>
        rw [htasks] at h
        cases h
    | ok u =>
        rw [htasks] at h
        refine ⟨rfl, ?_⟩
        cases hnotify : validateJobNotifications config jobYaml with
        | error e =>
            rw [hnotify] at h
            cases h
        | ok _ =>
            cases hlimits : validateJobLimits config jobYaml with
            | error e =>
                rw [hnotify, hlimits] at h
                cases h
            | ok _ =>
                rw [hnotify, hlimits] at h
                cases h
                rfl
  obtain ⟨hdeclared, hdeps, hcycle⟩ := (validateJobTasks_eq_ok jobYaml).mp hvalid
  have hnodup : (jobYaml.tasks.map (·.id)).Nodup := (declaredTwice_eq_none.mp hdeclared).1
  have hacyclic : Acyclic (DependsOn jobYaml.tasks) := by
    have hlast := (findTaskDependencyCycle_spec jobYaml.tasks).1.mp hcycle
    rwa [show LastDependsOn jobYaml.tasks = DependsOn jobYaml.tasks from
      funext fun a => funext fun b => propext (lastDependsOn_iff hnodup a b)] at hlast
  refine ⟨?_, ?_, fun task hcycle => ?_⟩
  · rwa [List.map_map]
  · intro task htask taskId hdep
    obtain ⟨yaml, hyaml, rfl⟩ := List.mem_map.mp htask
    have hmem := (dependencyError_eq_none.mp (hdeps yaml hyaml taskId hdep)).2
    obtain ⟨dep, hdepYaml, rfl⟩ := List.mem_map.mp hmem
    exact ⟨_, List.mem_map_of_mem hdepYaml, rfl⟩
  · refine hacyclic task.taskId (hcycle.lift Task.taskId fun a b hawaits => ?_)
    obtain ⟨ha, -, hdep⟩ := hawaits
    obtain ⟨yaml, hyaml, rfl⟩ := List.mem_map.mp ha
    exact ⟨yaml, hyaml, rfl, hdep⟩

theorem AcceptedTasks.inj {tasks : List Task} (h : AcceptedTasks tasks) {task other : Task}
    (htask : task ∈ tasks) (hother : other ∈ tasks) (hid : task.taskId = other.taskId) :
    task = other :=
  List.inj_on_of_nodup_map h.named htask hother hid

theorem AcceptedTasks.wellFounded {tasks : List Task} (h : AcceptedTasks tasks) :
    WellFounded fun dep task => Awaits tasks task dep :=
  h.acyclic.wellFounded tasks fun _ _ hawaits => hawaits.1

/-- The run was written from these tasks, and from each of them. -/
structure WrittenFrom (db : Database) (id : Nat) (tasks : List Task) : Prop where
  run : ∀ x ∈ db.taskRunsOf id, ∃ task ∈ tasks, x.taskId = task.taskId ∧
    x.dependsOn = task.dependsOn ∧ x.maxRetries = task.maxRetries
  each : ∀ task ∈ tasks, ∃ x ∈ db.taskRunsOf id, x.taskId = task.taskId

/-- The task has settled so in the run. -/
def ComesTo (db : Database) (id : Nat) (tasks : List Task) (task : Task)
    (status : TaskRunStatus) : Prop :=
  task ∈ tasks ∧ ∃ x ∈ db.taskRunsOf id, x.taskId = task.taskId ∧ x.status = status

/-- The dependencies of a task run of the run are those of its task. -/
theorem WrittenFrom.dependsOn {db : Database} {id : Nat} {tasks : List Task}
    (h : WrittenFrom db id tasks) (ht : AcceptedTasks tasks) {x : TaskRun}
    (hx : x ∈ db.taskRunsOf id) {task : Task} (htask : task ∈ tasks)
    (hid : x.taskId = task.taskId) :
    x.dependsOn = task.dependsOn ∧ x.maxRetries = task.maxRetries := by
  obtain ⟨other, hother, hsame, hdeps⟩ := h.run x hx
  rw [ht.inj htask hother (hid.symm.trans hsame)]
  exact hdeps

/-! ## What a task makes of itself -/

/-- What each attempt of each task ends as. -/
abbrev Outcomes := String → Nat → TaskRunAttemptStatus

/-- How the attempts from the `n`th on end, where so many may follow it. -/
def lastOutcome (ends : Nat → TaskRunAttemptStatus) : Nat → Nat → TaskRunAttemptStatus
  | 0, n => ends n
  | more + 1, n => if ends n = .failed then lastOutcome ends more (n + 1) else ends n

/-- What a task settles as if nothing is in its way. -/
def Outcomes.verdict (outcomes : Outcomes) (task : Task) : Option TaskRunStatus :=
  (lastOutcome (outcomes task.taskId) (max 1 (TaskRunMonitor.addU32 task.maxRetries 1) - 1)
    1).settles

/-- The `k`th attempt is the last one, when those before it fail and it either does not, or is
the last there may be. -/
theorem lastOutcome_eq {ends : Nat → TaskRunAttemptStatus} {k : Nat} (more n : Nat)
    (hn : n ≤ k) (hk : k ≤ n + more) (hbefore : ∀ m, n ≤ m → m < k → ends m = .failed)
    (hlast : ends k = .failed → k = n + more) : lastOutcome ends more n = ends k := by
  induction more generalizing n with
  | zero =>
      have heq : n = k := by omega
      rw [← heq]
      rfl
  | succ more ih =>
      unfold lastOutcome
      rcases Nat.eq_or_lt_of_le hn with rfl | hlt
      · refine if_neg fun hfailed => ?_
        have heq := hlast hfailed
        omega
      · rw [if_pos (hbefore n le_rfl hlt)]
        refine ih (n + 1) hlt (by omega) (fun m hm hmk => hbefore m (by omega) hmk)
          fun hfailed => ?_
        have heq := hlast hfailed
        omega

/-- The attempts of the run end as they are told to. -/
def Follows (db : Database) (id : Nat) (outcomes : Outcomes) : Prop :=
  ∀ x ∈ db.taskRunsOf id, ∀ a ∈ db.attemptsOf x.id, a.status.isFinished = true →
    a.status = outcomes x.taskId a.attempt

/-- A task run that has settled, and was not skipped, is what its task makes of itself. -/
theorem verdict_of_finished {cond : (flowlite lib).Condition} (ho : Ordered cond)
    {c : (flowlite lib).Config} (hc : Reachable cond c) {id : Nat} {outcomes : Outcomes}
    (hfollows : Follows c.state.db id outcomes) {x : TaskRun} (hx : x ∈ c.state.db.taskRunsOf id)
    (hfinished : x.status.isFinished = true) (hskipped : x.status ≠ .skipped) {task : Task}
    (hid : x.taskId = task.taskId) (hretries : x.maxRetries = task.maxRetries) :
    outcomes.verdict task = some x.status := by
  have hg := ho.grounded
  have hrow := (mem_taskRunsOf.mp hx).1
  obtain ⟨status, hsettles, a, ha, hmost, rfl⟩ :=
    (verdicts_valid ho).inv hc x hrow hfinished hskipped
  obtain ⟨k, hretried⟩ := ((retries_valid hg.base hg.attempts hg.releases).inv hc).2 x hrow
  have hnumbered := hretried.numbered
  have hbounds := hnumbered.within a ha
  -- the last attempt has the last number
  have hk : a.attempt = k := by
    obtain ⟨b, hb, hbk⟩ := hnumbered.each k (by omega) le_rfl
    have hle := hmost b hb
    omega
  have hends : ∀ b ∈ c.state.db.attemptsOf x.id, outcomes task.taskId b.attempt = b.status :=
    fun b hb => hid ▸ (hfollows x hx b hb (attempt_finished ho hc hrow hfinished hb)).symm
  have hmostAttempts : x.mostAttempts = max 1 (TaskRunMonitor.addU32 task.maxRetries 1) := by
    rw [← hretries]
    rfl
  have hlimit := hretried.most
  unfold Outcomes.verdict
  rw [lastOutcome_eq (k := k) _ 1 (by omega) (by omega) ?_ ?_, ← hk, hends a ha, hsettles]
  · intro n hn hlt
    obtain ⟨b, hb, rfl⟩ := hnumbered.each n hn (by omega)
    rw [hends b hb]
    exact hnumbered.failed b hb hlt
  · intro hfailed
    rw [← hk, hends a ha] at hfailed
    have hsettled : x.status = .failed := by
      rw [hfailed] at hsettles
      exact (Option.some.inj hsettles).symm
    have heq := (hretried.settled hsettled).2
    omega

/-! ## The rule -/

/-- A run that was started and is over, and that nobody has stopped or deleted. -/
structure RanThrough (w : World) (j : JobRun) (tasks : List Task) (outcomes : Outcomes) :
    Prop where
  finished : j.status.isFinished = true
  started : j.status.hasStarted = true
  written : WrittenFrom w.db j.id tasks
  follows : Follows w.db j.id outcomes
  unstopped : ¬ IsStopped w j.id
  kept : ¬ w.Deleted j.id

section Checks

instance (db : Database) (id : Nat) (tasks : List Task) : Decidable (WrittenFrom db id tasks) :=
  decidable_of_iff ((∀ x ∈ db.taskRunsOf id, ∃ task ∈ tasks, x.taskId = task.taskId ∧
      x.dependsOn = task.dependsOn ∧ x.maxRetries = task.maxRetries) ∧
    ∀ task ∈ tasks, ∃ x ∈ db.taskRunsOf id, x.taskId = task.taskId)
    ⟨fun h => ⟨h.1, h.2⟩, fun h => ⟨h.run, h.each⟩⟩

instance (db : Database) (id : Nat) (outcomes : Outcomes) : Decidable (Follows db id outcomes) := by
  unfold Follows
  infer_instance

instance (w : World) (id : Nat) : Decidable (w.Deleted id) := by
  unfold Host.World.Deleted
  infer_instance

instance (w : World) (j : JobRun) (tasks : List Task) (outcomes : Outcomes) :
    Decidable (RanThrough w j tasks outcomes) :=
  decidable_of_iff (j.status.isFinished = true ∧ j.status.hasStarted = true ∧
      WrittenFrom w.db j.id tasks ∧ Follows w.db j.id outcomes ∧ ¬ IsStopped w j.id ∧
      ¬ w.Deleted j.id)
    ⟨fun h => ⟨h.1, h.2.1, h.2.2.1, h.2.2.2.1, h.2.2.2.2.1, h.2.2.2.2.2⟩,
      fun h => ⟨h.finished, h.started, h.written, h.follows, h.unstopped, h.kept⟩⟩

end Checks

/-- What the tasks of a job come to, when their attempts end so. -/
def TaskSettles (tasks : List Task) (outcomes : Outcomes) (task : Task)
    (status : TaskRunStatus) : Prop :=
  Graph.Settles (Awaits tasks) outcomes.verdict .succeeded .skipped
    (fun status => TaskRunDispatcher.isUnsuccessful status = true) task status

theorem keepsRule {cond : (flowlite lib).Condition} (ho : Ordered cond)
    {c : (flowlite lib).Config} (hc : Reachable cond c) {tasks : List Task}
    (ht : AcceptedTasks tasks) {j : JobRun} {outcomes : Outcomes}
    (hran : RanThrough c.state j tasks outcomes)
    (hfinished : ∀ x ∈ c.state.db.taskRunsOf j.id, x.status.isFinished = true) :
    KeepsRule (Awaits tasks) outcomes.verdict .succeeded .skipped
      (fun status => TaskRunDispatcher.isUnsuccessful status = true)
      (ComesTo c.state.db j.id tasks) := by
  rintro task status ⟨htask, x, hx, hid, rfl⟩
  obtain ⟨hrow, hrun⟩ := mem_taskRunsOf.mp hx
  obtain ⟨hdeps, hretries⟩ := hran.written.dependsOn ht hx htask hid
  obtain ⟨hbegins, hskips⟩ := (dependencies_valid ho.gated ho.taskRuns).inv hc x hrow
  by_cases hskipped : x.status = .skipped
  · -- nobody stopped the run, so it was a dependency
    refine .inl ⟨hskipped, ?_⟩
    rcases hskips hskipped with hstop | hdeleted | ⟨taskId, hdep, bad, hbad, y, hy, hsame, rfl, rfl⟩
    · exact absurd (hrun ▸ hstop) hran.unstopped
    · exact absurd (hrun ▸ hdeleted) hran.kept
    · have hmem : y ∈ c.state.db.taskRunsOf j.id := mem_taskRunsOf.mpr ⟨hy, hsame.trans hrun⟩
      obtain ⟨dep, hdepTask, hdepId, -⟩ := hran.written.run y hmem
      rw [hdepId, hdeps] at hdep
      exact ⟨dep, y.status, ⟨htask, hdepTask, hdep⟩, ⟨hdepTask, y, hmem, hdepId, rfl⟩, hbad⟩
  · have hdone := hfinished x hx
    have hbegun : x.status.hasBegun = true := by
      by_contra hnot
      exact hskipped (skipped_of_not_begun (by simpa using hnot) hdone)
    refine .inr ⟨fun dep hawaits => ?_,
      verdict_of_finished ho hc hran.follows hx hdone hskipped hid hretries⟩
    obtain ⟨-, hdepTask, hdep⟩ := hawaits
    obtain ⟨y, hy, hsame, hyid, hsucceeded⟩ := hbegins hbegun dep.taskId (hdeps ▸ hdep)
    exact ⟨hdepTask, y, mem_taskRunsOf.mpr ⟨hy, hsame.trans hrun⟩, hyid, hsucceeded⟩

/-- So each task of the run settles by the rule. -/
theorem taskSettles_of_ranThrough {cond : (flowlite lib).Condition} (hcomplete : Complete cond)
    {c : (flowlite lib).Config} (hc : Reachable cond c) {tasks : List Task}
    (ht : AcceptedTasks tasks) {j : JobRun} (hj : j ∈ c.state.db.jobRuns.rows)
    {outcomes : Outcomes} (hran : RanThrough c.state j tasks outcomes) {x : TaskRun}
    (hx : x ∈ c.state.db.taskRunsOf j.id) {task : Task} (htask : task ∈ tasks)
    (hid : x.taskId = task.taskId) : TaskSettles tasks outcomes task x.status := by
  have hfinished := (job_finished hcomplete hc hj hran.finished hran.started).1
  have hrule := keepsRule hcomplete.ordered hc ht hran hfinished
  exact hrule.settles ht.wellFounded ⟨htask, x, hx, hid, rfl⟩

/-- **A run comes to what its attempts end as**: each of its tasks settles by the rule, and the
run itself as `JobRunMonitor` derives it from them. -/
theorem run_comes_to_outcomes (lib : Library) (config : SeedConfig) (jobPath : String)
    (jobYaml : JobYaml) (job : Job) (tasks : List Task)
    (hseed : seedJob config jobPath jobYaml = .ok (job, tasks)) (outcomes : Outcomes)
    (c : (flowlite lib).Config)
    (hc : Reachable ((startsReleased lib).and (awaitsSubmission false lib)) c) (j : JobRun)
    (hj : j ∈ c.state.db.jobRuns.rows) (hran : RanThrough c.state j tasks outcomes) :
    (∀ x ∈ c.state.db.taskRunsOf j.id, ∀ task ∈ tasks, x.taskId = task.taskId →
      TaskSettles tasks outcomes task x.status) ∧
    JobRunMonitor.deriveNextStatus (c.state.db.taskRunsOf j.id) = some j.status := by
  obtain ⟨cond, hentails, hcomplete⟩ := complete_of_starts (Condition.and_le_left _ _)
    (Condition.and_le_right (startsReleased lib) (awaitsSubmission false lib))
  have hreach := hentails.reachable hc
  refine ⟨fun x hx task htask hid => ?_, ?_⟩
  · exact taskSettles_of_ranThrough hcomplete hreach (acceptedTasks hseed) hj hran hx htask hid
  · exact (job_finished hcomplete hreach hj hran.finished hran.started).2

namespace Replay

/-- A job of two tasks and one that waits for both. -/
def forkFile : JobYaml where
  id := "etl"
  name := "etl"
  tasks := [{ id := "extract", command := "true" }, { id := "fetch", command := "true" },
    { id := "load", command := "true", dependsOn := ["extract", "fetch"] }]

def forkConfig : Config where
  app := app
  jobs := [jobRow seedConfig.jobDefaults forkFile]
  tasks := forkFile.tasks.map (taskRow seedConfig.jobDefaults "etl")
  schedules := []
  scheduleJobs := []

/-- A process and its group are gone, with this code. -/
def ended (process code : Nat) : List Event :=
  [.env (.exit process (.code code)), .env (.groupExit process), .env (.eof process .stdout),
    .env (.eof process .stderr)]

/-- Both tasks are spawned, the second with a group id of its own. -/
def forked : List Event :=
  boot forkConfig ++ request 0 (.submit forkConfig "etl" [] 0 none) 6 ++ wake .jobRunReleaser 4 ++
    wake .jobRunDispatcher 10 ++ wake .taskRunDispatcher 10 ++ wake .taskRunMonitor 7 ++
    wake .taskRunAttemptDispatcher 18 ++
    List.replicate 3 (step (.service .taskRunAttemptDispatcher) { pid := 1 })

/-- `extract` succeeds, and only then `fetch` fails. -/
def endsExtractFirst : List Event :=
  ended 1 0 ++ wake .taskRunAttemptMonitor 16 ++ wake .taskRunMonitor 5 ++
    wake .taskRunDispatcher 4 ++ ended 2 1 ++ wake .taskRunAttemptMonitor 7 ++
    wake .taskRunMonitor 4 ++ wake .taskRunDispatcher 6 ++ wake .jobRunMonitor 4

/-- `fetch` fails, and `load` is skipped before `extract` has ended. -/
def endsFetchFirst : List Event :=
  ended 2 1 ++ wake .taskRunAttemptMonitor 15 ++ wake .taskRunMonitor 5 ++
    wake .taskRunDispatcher 6 ++ ended 1 0 ++ wake .taskRunAttemptMonitor 8 ++
    wake .taskRunMonitor 4 ++ wake .jobRunMonitor 4

/-- `fetch` fails, and what else there is succeeds. -/
def fetchFails : Outcomes := fun taskId _ => if taskId = "fetch" then .failed else .succeeded

/-- Run 1 has failed, as its attempts have. -/
def hasFailed (c : (flowlite library).Config) : Bool :=
  (c.state.db.jobRuns.find 1).any fun j =>
    decide (j.status = .failed ∧ RanThrough c.state j forkConfig.tasks fetchFails)

end Replay

open Replay in
/-- `load` is passed over, because `fetch` fails. -/
theorem run_comes_to_outcomes_fork : ∃ (c : (flowlite library).Config) (j : JobRun),
    j.status = .failed ∧ (∀ x ∈ c.state.db.taskRunsOf j.id, ∀ task ∈ forkConfig.tasks,
      x.taskId = task.taskId → TaskSettles forkConfig.tasks fetchFails task x.status) ∧
    JobRunMonitor.deriveNextStatus (c.state.db.taskRunsOf j.id) = some j.status := by
  have hrun : (replay ((startsReleased library).and (awaitsSubmission false library))
      (forked ++ endsExtractFirst)).any hasFailed = true := by
    decide +kernel
  obtain ⟨c, hc, hcheck⟩ := reachable_of_replay hrun
  obtain ⟨j, hfind, hj⟩ := (Option.any_eq_true _ _).mp hcheck
  obtain ⟨hfailed, hran⟩ := of_decide_eq_true hj
  exact ⟨c, j, hfailed, run_comes_to_outcomes library seedConfig "jobs/etl.yaml" forkFile
    (jobRow seedConfig.jobDefaults forkFile) forkConfig.tasks rfl fetchFails c hc j
    (Table.mem_of_find hfind) hran⟩

/-- A task settles alike in both of two such runs. -/
theorem status_of_ranThrough {lib' : Library} {cond : (flowlite lib).Condition}
    {cond' : (flowlite lib').Condition} (hcomplete : Complete cond) (hcomplete' : Complete cond')
    {c : (flowlite lib).Config} (hc : Reachable cond c) {c' : (flowlite lib').Config}
    (hc' : Reachable cond' c') {tasks : List Task} (ht : AcceptedTasks tasks)
    {outcomes : Outcomes} {j j' : JobRun} (hj : j ∈ c.state.db.jobRuns.rows)
    (hran : RanThrough c.state j tasks outcomes) (hj' : j' ∈ c'.state.db.jobRuns.rows)
    (hran' : RanThrough c'.state j' tasks outcomes) {x x' : TaskRun}
    (hx : x ∈ c.state.db.taskRunsOf j.id) (hx' : x' ∈ c'.state.db.taskRunsOf j'.id)
    (hid : x'.taskId = x.taskId) : x'.status = x.status := by
  obtain ⟨task, htask, htaskId, -⟩ := hran.written.run x hx
  have hsettles := taskSettles_of_ranThrough hcomplete hc ht hj hran hx htask htaskId
  have hsettles' :=
    taskSettles_of_ranThrough hcomplete' hc' ht hj' hran' hx' htask (hid.trans htaskId)
  exact hsettles'.unique (by decide) hsettles

/-- **The order of things does not matter**: two runs of the same tasks whose attempts end
alike end alike, whatever was done when in either of them. -/
theorem runs_end_alike (lib lib' : Library) (config : SeedConfig) (jobPath : String)
    (jobYaml : JobYaml) (job : Job) (tasks : List Task)
    (hseed : seedJob config jobPath jobYaml = .ok (job, tasks)) (outcomes : Outcomes)
    (c : (flowlite lib).Config)
    (hc : Reachable ((startsReleased lib).and (awaitsSubmission false lib)) c) (j : JobRun)
    (hj : j ∈ c.state.db.jobRuns.rows) (hran : RanThrough c.state j tasks outcomes)
    (c' : (flowlite lib').Config)
    (hc' : Reachable ((startsReleased lib').and (awaitsSubmission false lib')) c') (j' : JobRun)
    (hj' : j' ∈ c'.state.db.jobRuns.rows) (hran' : RanThrough c'.state j' tasks outcomes) :
    j'.status = j.status ∧ ∀ x ∈ c.state.db.taskRunsOf j.id, ∀ x' ∈ c'.state.db.taskRunsOf j'.id,
      x'.taskId = x.taskId → x'.status = x.status := by
  obtain ⟨cond, hentails, hcomplete⟩ := complete_of_starts (Condition.and_le_left _ _)
    (Condition.and_le_right (startsReleased lib) (awaitsSubmission false lib))
  obtain ⟨cond', hentails', hcomplete'⟩ := complete_of_starts (Condition.and_le_left _ _)
    (Condition.and_le_right (startsReleased lib') (awaitsSubmission false lib'))
  have hreach := hentails.reachable hc
  have hreach' := hentails'.reachable hc'
  have ht := acceptedTasks hseed
  have hsame : ∀ x ∈ c.state.db.taskRunsOf j.id, ∀ x' ∈ c'.state.db.taskRunsOf j'.id,
      x'.taskId = x.taskId → x'.status = x.status := fun x hx x' hx' hid =>
    status_of_ranThrough hcomplete hcomplete' hreach hreach' ht hj hran hj' hran' hx hx' hid
  refine ⟨?_, hsame⟩
  -- the same statuses are there on both sides
  have hderived := (job_finished hcomplete hreach hj hran.finished hran.started).2
  have hderived' := (job_finished hcomplete' hreach' hj' hran'.finished hran'.started).2
  rw [← Option.some_inj, ← hderived, ← hderived']
  refine deriveNextStatus_congr fun status => ⟨?_, ?_⟩
  · rintro ⟨x', hx', rfl⟩
    obtain ⟨task, htask, hid, -⟩ := hran'.written.run x' hx'
    obtain ⟨x, hx, hxid⟩ := hran.written.each task htask
    exact ⟨x, hx, (hsame x hx x' hx' (hid.trans hxid.symm)).symm⟩
  · rintro ⟨x, hx, rfl⟩
    obtain ⟨task, htask, hid, -⟩ := hran.written.run x hx
    obtain ⟨x', hx', hxid'⟩ := hran'.written.each task htask
    exact ⟨x', hx', hsame x hx x' hx' (hxid'.trans hid.symm)⟩

open Replay in
/-- Whichever of the two tasks ends first, the runs end alike. -/
theorem runs_end_alike_fork : ∃ (c c' : (flowlite library).Config) (j j' : JobRun),
    j.status = .failed ∧ j' ∈ c'.state.db.jobRuns.rows ∧ (j'.status = j.status ∧
      ∀ x ∈ c.state.db.taskRunsOf j.id, ∀ x' ∈ c'.state.db.taskRunsOf j'.id,
        x'.taskId = x.taskId → x'.status = x.status) := by
  have hrun : (replay ((startsReleased library).and (awaitsSubmission false library))
      (forked ++ endsExtractFirst)).any hasFailed = true := by
    decide +kernel
  have hrun' : (replay ((startsReleased library).and (awaitsSubmission false library))
      (forked ++ endsFetchFirst)).any hasFailed = true := by
    decide +kernel
  obtain ⟨c, hc, hcheck⟩ := reachable_of_replay hrun
  obtain ⟨c', hc', hcheck'⟩ := reachable_of_replay hrun'
  obtain ⟨j, hfind, hj⟩ := (Option.any_eq_true _ _).mp hcheck
  obtain ⟨j', hfind', hj'⟩ := (Option.any_eq_true _ _).mp hcheck'
  obtain ⟨hfailed, hran⟩ := of_decide_eq_true hj
  obtain ⟨-, hran'⟩ := of_decide_eq_true hj'
  have hrow' := Table.mem_of_find hfind'
  exact ⟨c, c', j, j', hfailed, hrow', runs_end_alike library library seedConfig "jobs/etl.yaml"
    forkFile (jobRow seedConfig.jobDefaults forkFile) forkConfig.tasks rfl fetchFails c hc j
    (Table.mem_of_find hfind) hran c' hc' j' hrow' hran'⟩

end Flowlite
