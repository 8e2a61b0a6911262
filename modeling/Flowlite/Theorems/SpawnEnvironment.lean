import Flowlite.Logic.SpawnEnvironment
import Flowlite.Theorems.Replay

/-!
# The environment a command runs with

From the job file to the overlay of a spawn: what is under flowlite's prefix is flowlite's,
each name for one thing, and any other variable is what the file declares it to be.
-/

namespace Flowlite

open Store Host Threads Crud Yaml

/-- The mappings of a file have their keys in order. -/
structure Yaml.JobYaml.Maps (job : JobYaml) : Prop where
  secretEnv : job.secretEnv.Ordered
  tasks : ∀ task ∈ job.tasks, task.env.Ordered ∧ task.secretEnv.Ordered

/-- The two rows are a run that was written as the definition and one of its task runs,
however far they have come. -/
structure RowsOf (d : JobRunDefinition) (jobRun : JobRun) (taskRun : TaskRun) : Prop where
  jobRun : jobRun.snapshot = (snapshotOf d).jobRun
  taskRun : taskRun.snapshot ∈ (snapshotOf d).taskRuns

/-- What an overlay binds: `own` are the variables flowlite sets, `declared` says what a
variable of the task is. -/
structure Overlay (parameters inputs own : List (String × String))
    (declared : String → Option String) (env : BTreeMap String String) : Prop where
  /-- Under the prefix there is what flowlite sets, and nothing else. -/
  flowlite : ∀ name, HasPrefix "FLOWLITE_" name → env.get name = BTreeMap.get own name
  apart : (own.map (·.1)).Nodup
  parameters : ∀ e ∈ parameters, env.get ("FLOWLITE_PARAM_" ++ e.1.toUpper) = some e.2
  inputs : ∀ e ∈ inputs, env.get (taskInputEnvName e.1) = some e.2
  declared : ∀ name, ¬ HasPrefix "FLOWLITE_" name → env.get name = declared name

theorem seedJob_ok {config : SeedConfig} {jobPath : String} {jobYaml : JobYaml} {job : Job}
    {tasks : List Task} (h : seedJob config jobPath jobYaml = .ok (job, tasks)) :
    validateJobTasks jobYaml = .ok () ∧ job = jobRow config.jobDefaults jobYaml ∧
      tasks = jobYaml.tasks.map (taskRow config.jobDefaults jobYaml.id) := by
  unfold seedJob at h
  cases htasks : validateJobTasks jobYaml with
  | error e =>
      rw [htasks] at h
      cases h
  | ok _ =>
      rw [htasks] at h
      cases hnotifications : validateJobNotifications config jobYaml with
      | error e =>
          rw [hnotifications] at h
          cases h
      | ok _ =>
          rw [hnotifications] at h
          cases hlimits : validateJobLimits config jobYaml with
          | error e =>
              rw [hlimits] at h
              cases h
          | ok _ =>
              rw [hlimits] at h
              cases h
              exact ⟨rfl, rfl, rfl⟩

/-- What the rows of a task run say of the file it was submitted from. -/
theorem RowsOf.task {defaults : AppConfigJobDefaults} {jobYaml : JobYaml}
    {parameters : BTreeMap String String} {scheduledAt : Instant} {scheduleId : Option String}
    {parent : Option Nat} {jobRun : JobRun} {taskRun : TaskRun}
    (h : RowsOf (submittedDefinition (jobRow defaults jobYaml)
      (jobYaml.tasks.map (taskRow defaults jobYaml.id)) parameters scheduledAt scheduleId parent)
        jobRun taskRun) :
    jobRun.parameters = parameters ∧ ∃ task ∈ jobYaml.tasks, taskRun.taskId = task.id ∧
      taskRun.dependsOn = task.dependsOn ∧
        taskRun.env = (jobRunTaskDefinition (taskRow defaults jobYaml.id task)
          (jobRow defaults jobYaml)).env ∧
        taskRun.secretEnv = (jobRunTaskDefinition (taskRow defaults jobYaml.id task)
          (jobRow defaults jobYaml)).secretEnv := by
  obtain ⟨hjobRun, htaskRun⟩ := h
  refine ⟨congrArg JobRun.parameters hjobRun, ?_⟩
  obtain ⟨definition, hdefinition, hrow⟩ := List.mem_map.mp htaskRun
  obtain ⟨row, hrowmem, rfl⟩ := List.mem_map.mp hdefinition
  obtain ⟨task, htask, rfl⟩ := List.mem_map.mp hrowmem
  exact ⟨task, htask, (congrArg TaskRun.taskId hrow).symm, (congrArg TaskRun.dependsOn hrow).symm,
    (congrArg TaskRun.env hrow).symm, (congrArg TaskRun.secretEnv hrow).symm⟩

/-- The results of a task's dependencies have names of their own. -/
theorem ResultsOf.nodup {jobYaml : JobYaml} {taskRun : TaskRun} {inputs : BTreeMap String String}
    {task : JobYamlTask} (h : ResultsOf taskRun inputs) (hids : jobYaml.validateTaskIds = .ok ())
    (hgraph : validateJobTasks jobYaml = .ok ()) (htask : task ∈ jobYaml.tasks)
    (hdepends : taskRun.dependsOn = task.dependsOn) :
    (inputs.map fun e => taskInputEnvName e.1).Nodup := by
  have hnames := (nodup_of_validateTaskIdsFrom hids).1
  obtain ⟨-, hdependencies, -⟩ := (validateJobTasks_eq_ok jobYaml).mp hgraph
  -- a dependency is a task of the job
  have htasks : ∀ taskId ∈ inputs.keys, ∃ other ∈ jobYaml.tasks, other.id = taskId := by
    intro taskId hmem
    have hdependency := hdependencies task htask taskId (hdepends ▸ h.dependencies hmem)
    exact List.mem_map.mp (dependencyError_eq_none.mp hdependency).2
  have hinj : ∀ a ∈ inputs.keys, ∀ b ∈ inputs.keys,
      taskInputEnvName a = taskInputEnvName b → a = b := by
    intro a ha b hb heq
    obtain ⟨x, hx, rfl⟩ := htasks a ha
    obtain ⟨y, hy, rfl⟩ := htasks b hb
    rw [List.inj_on_of_nodup_map hnames hx hy heq]
  have hmapped := h.once.map_on hinj
  rw [BTreeMap.keys, List.map_map] at hmapped
  exact hmapped

/-- The results `get_inputs` answers are those of dependencies. -/
theorem resultsOf_getInputs {clock : World → Instant} {w w' : World} {taskRun : TaskRun}
    {dir : String} {inputs : BTreeMap String String}
    (h : (TaskRunAttemptDispatcher.getInputs taskRun dir).alone (undisturbed clock) w =
      some (.ok inputs, w')) : ResultsOf taskRun inputs := by
  unfold TaskRunAttemptDispatcher.getInputs at h
  by_cases hempty : taskRun.dependsOn.isEmpty = true
  · rw [if_pos hempty] at h
    cases h
    exact ⟨List.nodup_nil, List.nil_subset _⟩
  · rw [if_neg hempty] at h
    have houtputs : ∃ outputs, (TaskRunAttemptDispatcher.selectTaskRunOutputs taskRun.jobRunId).alone
        (undisturbed clock) w = some (.ok outputs, w) :=
      ⟨_, Prog.alone_bind_of_ok (undisturbed_select _) _⟩
    obtain ⟨outputs, houtputs⟩ := houtputs
    rw [Prog.bind_eq, Prog.alone_bind_of_ok houtputs] at h
    cases h
    exact resultsOf_collected outputs

/-- **The environment of a spawn**: for a job file that is accepted, a submission that is, and
an attempt whose environment is built. -/
theorem spawn_environment (lib : Library) (config : SeedConfig) (jobPath : String)
    (jobYaml : JobYaml) (hmaps : jobYaml.Maps) (hvalid : jobYaml.validate = .ok ())
    (job : Job) (tasks : List Task) (hseed : seedJob config jobPath jobYaml = .ok (job, tasks))
    (overrides parameters : BTreeMap String String)
    (hsubmit : resolveJobParameters job.jobId job.parameters overrides = .ok parameters)
    (scheduledAt : Instant) (scheduleId : Option String) (parent : Option Nat)
    (jobRun : JobRun) (taskRun : TaskRun)
    (hrows : RowsOf (submittedDefinition job tasks parameters scheduledAt scheduleId parent)
      jobRun taskRun)
    (attempt : TaskRunAttempt) (dataDir jobRunDir : String) (inputs : BTreeMap String String)
    (hinputs : ResultsOf taskRun inputs) (previousAttempt : Option PreviousAttemptFiles)
    (secrets env : BTreeMap String String)
    (hbuild : buildTaskRunAttemptEnv lib taskRun jobRun attempt dataDir jobRunDir inputs
      previousAttempt secrets = .ok env) :
    ∃ task ∈ jobYaml.tasks, task.id = taskRun.taskId ∧
      Overlay parameters inputs
        (flowliteVariables lib taskRun jobRun attempt dataDir jobRunDir inputs previousAttempt)
        (declaredValue jobYaml task secrets) env := by
  obtain ⟨hids, hsecretEnv, -⟩ := validate_ok hvalid
  obtain ⟨hgraph, rfl, rfl⟩ := seedJob_ok hseed
  obtain ⟨rfl, task, htask, hid, hdepends, henv, hsecrets⟩ := hrows.task
  obtain ⟨own, hown, rfl⟩ := build_ok hbuild
  have hapart : ((flowliteVariables lib taskRun jobRun attempt dataDir jobRunDir inputs
      previousAttempt).map (·.1)).Nodup :=
    nodup_flowliteVariables (nodup_parameters hsubmit)
      (hinputs.nodup hids hgraph htask hdepends)
  have hkept : ∀ name, BTreeMap.get (own.filter fun e => !e.1.startsWith "FLOWLITE_") name =
      if !name.startsWith "FLOWLITE_" then own.get name else none :=
    BTreeMap.get_filter (fun name => !name.startsWith "FLOWLITE_") own
  have hmem : ∀ e ∈ flowliteVariables lib taskRun jobRun attempt dataDir jobRunDir inputs
      previousAttempt, BTreeMap.get (BTreeMap.extend
        (own.filter fun e => !e.1.startsWith "FLOWLITE_") (flowliteVariables lib taskRun jobRun
          attempt dataDir jobRunDir inputs previousAttempt)) e.1 = some e.2 := by
    intro e he
    rw [BTreeMap.get_extend hapart, BTreeMap.get_of_mem hapart he]
    rfl
  refine ⟨task, htask, hid.symm, ⟨fun name hname => ?_, hapart, fun e he => ?_, fun e he => ?_,
    fun name hname => ?_⟩⟩
  · have hgone : BTreeMap.get (own.filter fun e => !e.1.startsWith "FLOWLITE_") name = none := by
      rw [hkept, startsWith_iff.mpr hname]
      rfl
    rw [BTreeMap.get_extend hapart, hgone, Option.or_none]
  · exact hmem _ (List.mem_append_left _ (List.mem_map.mpr ⟨e, he, rfl⟩))
  · exact hmem _ (List.mem_append_right _ (List.mem_append_right _
      (List.mem_append_left _ (List.mem_map.mpr ⟨e, he, rfl⟩))))
  · have hnot : name ∉ (flowliteVariables lib taskRun jobRun attempt dataDir jobRunDir inputs
        previousAttempt).map (·.1) := fun hmem => hname (hasPrefix_flowliteVariables hmem)
    have hstays : (!name.startsWith "FLOWLITE_") = true := by
      rw [Bool.not_eq_true', Bool.eq_false_iff]
      exact fun h => hname (startsWith_iff.mp h)
    rw [BTreeMap.get_extend hapart, BTreeMap.get_eq_none.mpr hnot, Option.none_or, hkept,
      if_pos hstays]
    rw [henv, hsecrets] at hown
    exact get_declared rfl hmaps.secretEnv (hmaps.tasks task htask).1 (hmaps.tasks task htask).2
      (disjoint_of_validateSecretEnv hsecretEnv htask) hown name

namespace Replay

/-- A job whose tasks have a variable of each kind. -/
def etlFile : JobYaml where
  id := "etl"
  name := "etl"
  parameters := [("table", "runs")]
  env := [("MODE", "full")]
  secretEnv := [("PASSWORD", "db")]
  tasks := [{ id := "extract", command := "true" },
    { id := "load", command := "true", dependsOn := ["extract"]
      env := [("PASSWORD", "none")], secretEnv := [("MODE", "mode")] }]

theorem etlFile_accepted : etlFile.validate = .ok () := by
  have haccepted : etlFile.validate.isOk = true := by decide +kernel
  cases hvalidate : etlFile.validate with
  | error e =>
      rw [hvalidate] at haccepted
      cases haccepted
  | ok _ => rfl

def seedConfig : SeedConfig where
  jobDefaults :=
    { timeoutSeconds := 3600, idleTimeoutSeconds := 0, maxRetries := 0, retryDelaySeconds := 60
      maxParallelRuns := 1, keepRuns := 100 }
  smtp := false
  slack := false
  concurrencyLimits := []

/-- It is submitted. -/
def etlDefinition : JobRunDefinition :=
  submittedDefinition (jobRow seedConfig.jobDefaults etlFile)
    (etlFile.tasks.map (taskRow seedConfig.jobDefaults "etl")) [("table", "runs")] 0 none none

def etlRun : JobRun := (etlDefinition.jobRunInput.draft 0).row 1

def loadRun : TaskRun :=
  ((etlDefinition.taskRunInput 1 (jobRunTaskDefinition
    (taskRow seedConfig.jobDefaults "etl" (etlFile.tasks.getLast nofun))
      (jobRow seedConfig.jobDefaults etlFile))).draft 0).row 2

def loadAttempt : TaskRunAttempt where
  id := 3
  taskRunId := 2
  jobRunId := 1
  jobId := "etl"
  taskId := "load"
  createdAt := 0
  startedAt := none
  finishedAt := none
  attempt := 1
  status := .queued
  processGroupId := none
  output := ""
  waitingSince := none

end Replay

open Replay in
/-- The environment of a task that depends on another and declares `PASSWORD` and `MODE`,
each in the other block than its job. -/
theorem spawn_environment_load : ∃ env, buildTaskRunAttemptEnv library loadRun etlRun loadAttempt
      "data" "data/runs/1" [("extract", "data/runs/1/.output/extract.1")] none
        [("db", "secret"), ("mode", "delta")] = .ok env ∧
    ∃ task ∈ etlFile.tasks, task.id = "load" ∧
      Overlay [("table", "runs")] [("extract", "data/runs/1/.output/extract.1")]
        (flowliteVariables library loadRun etlRun loadAttempt "data" "data/runs/1"
          [("extract", "data/runs/1/.output/extract.1")] none)
        (declaredValue etlFile task [("db", "secret"), ("mode", "delta")]) env := by
  have hmaps : etlFile.Maps := by
    refine ⟨List.pairwise_singleton _ _, fun task htask => ?_⟩
    rcases List.mem_cons.mp htask with rfl | htask
    · exact ⟨List.Pairwise.nil, List.Pairwise.nil⟩
    · rw [List.mem_singleton.mp htask]
      exact ⟨List.pairwise_singleton _ _, List.pairwise_singleton _ _⟩
  obtain ⟨env, hbuild⟩ : ∃ env, buildTaskRunAttemptEnv library loadRun etlRun loadAttempt "data"
      "data/runs/1" [("extract", "data/runs/1/.output/extract.1")] none
        [("db", "secret"), ("mode", "delta")] = .ok env := ⟨_, rfl⟩
  exact ⟨env, hbuild, spawn_environment library seedConfig "jobs/etl.yaml" etlFile hmaps
    etlFile_accepted
    _ _ rfl [] [("table", "runs")] rfl 0 none none etlRun loadRun ⟨rfl, .tail _ (.head _)⟩
    loadAttempt "data" "data/runs/1" _ ⟨by decide, by decide⟩ none _ env hbuild⟩

end Flowlite
