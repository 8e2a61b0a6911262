import Flowlite.Logic.AttemptFiles
import Flowlite.Logic.WasSpawned
import Flowlite.Logic.Handover
import Flowlite.Theorems.SpawnEnvironment

/-!
# Result handover

A command is told where the results of its task's dependencies are: in the files the one
attempt of each that succeeded was told to write. An attempt's files are its own, because
the attempts of a task run are numbered one by one, a task id names one task run of a run,
and a name in the output directory is read back as one id and one number.
-/

namespace Flowlite

open Store Host Threads Crud Yaml Machine Outline

variable {lib : Library}

/-- What every reachable state keeps of what is handed over. -/
theorem handover_of_reachable {cond : (flowlite lib).Condition} {c : (flowlite lib).Config}
    (hc : Reachable cond c) : (handover lib).inv c.state := by
  have hbase : (base lib).Valid cond := base_valid
  have hattempts : (attempts lib).Valid _ := attempts_valid (Condition.and_le_right cond _)
  have hle₁ := Condition.and_le_left (cond.and (base lib).established) (attempts lib).established
  have hb₁ := Condition.and_le_right cond (base lib).established
  have hreleases : (releases lib).Valid _ := releases_valid (hle₁.trans hb₁)
  have ha₁ := Condition.and_le_right (cond.and (base lib).established) (attempts lib).established
  have hle₂ := Condition.and_le_left
    ((cond.and (base lib).established).and (attempts lib).established) (releases lib).established
  have hr₂ := Condition.and_le_right
    ((cond.and (base lib).established).and (attempts lib).established) (releases lib).established
  have hb₂ := hle₂.trans (hle₁.trans hb₁)
  have ha₂ := hle₂.trans ha₁
  have hretries : (retries lib).Valid _ := retries_valid hb₂ ha₂ hr₂
  have hle₃ := Condition.and_le_left (((cond.and (base lib).established).and
    (attempts lib).established).and (releases lib).established) (retries lib).established
  have hsameJob : (sameJob lib).Valid _ := sameJob_valid (hle₃.trans hb₂)
  have hle₄ := Condition.and_le_left ((((cond.and (base lib).established).and
    (attempts lib).established).and (releases lib).established).and (retries lib).established)
      (sameJob lib).established
  have hvalid : (handover lib).Valid _ := handover_valid
    { base := hle₄.trans (hle₃.trans hb₂)
      attempts := hle₄.trans (hle₃.trans ha₂)
      releases := hle₄.trans (hle₃.trans hr₂)
      retries := hle₄.trans (Condition.and_le_right _ _)
      sameJob := Condition.and_le_right _ _ }
  exact hvalid.inv (hsameJob.established (hretries.established (hreleases.established
    (hattempts.established (hbase.established hc)))))

/-- An attempt that has succeeded was spawned. -/
theorem begun_of_reachable {cond : (flowlite lib).Condition} {c : (flowlite lib).Config}
    (hc : Reachable cond c) : (begins lib).inv c.state := by
  have hbase : (base lib).Valid cond := base_valid
  have hattempts : (attempts lib).Valid _ := attempts_valid (Condition.and_le_right cond _)
  have hle := Condition.and_le_left (cond.and (base lib).established) (attempts lib).established
  have hvalid : (begins lib).Valid _ :=
    begins_valid (hle.trans (Condition.and_le_right _ _)) (Condition.and_le_right _ _)
  exact hvalid.inv (hattempts.established (hbase.established hc))

/-- The task runs of the run were written from these tasks. -/
def RunOf (db : Database) (id : Nat) (tasks : List Task) : Prop :=
  ∀ x ∈ db.taskRuns.rows, x.jobRunId = id →
    ∃ task ∈ tasks, x.taskId = task.taskId ∧ x.dependsOn = task.dependsOn

/-- `b` is the one attempt of the task that succeeded in the run. -/
structure OneSucceeded (db : Database) (jobRunId : Nat) (taskId : String) (b : TaskRunAttempt) :
    Prop where
  row : b ∈ db.taskRunAttempts.rows
  run : b.jobRunId = jobRunId
  task : b.taskId = taskId
  status : b.status = .succeeded
  only : ∀ a ∈ db.taskRunAttempts.rows, a.jobRunId = jobRunId → a.taskId = taskId →
    a.status = .succeeded → a = b

/-- A command was spawned for the attempt, with this environment. -/
def SpawnedWith (w : World) (a : TaskRunAttempt) (env : BTreeMap String String) : Prop :=
  ∃ e ∈ w.log, ∃ command at', e.op = .spawn a.id command at' ∧ command.env = env

/-- Where the attempt's command is to write its result. -/
def ownPath (env : BTreeMap String String) : Option String := env.get "FLOWLITE_TASK_OUTPUT"

/-- What the environment of an attempt of `task` says of results, in a data directory that was
resolved to `canonical`. -/
structure HandedOver (w : World) (task : Task) (a : TaskRunAttempt) (canonical : String)
    (env : BTreeMap String String) : Prop where
  resolved : Resolved canonical w
  own : ownPath env = some (taskOutputPath (runDirIn canonical a.jobRunId) a.taskId a.attempt)
  dependencies : ∀ taskId ∈ task.dependsOn, ∃ b, OneSucceeded w.db a.jobRunId taskId b ∧
    env.get (taskInputEnvName taskId) = if b.output = "" then none
      else some (taskOutputPath (runDirIn canonical a.jobRunId) taskId b.attempt)
  others : ∀ name, HasPrefix "FLOWLITE_INPUT_" name → name ∈ env.keys →
    ∃ taskId ∈ task.dependsOn, name = taskInputEnvName taskId

/-- The task named so depends on the other one. -/
def HasDependency (tasks : List Task) (taskId other : String) : Prop :=
  ∃ task ∈ tasks, task.taskId = taskId ∧ other ∈ task.dependsOn

/-- What the attempts of a run are handed, and what is their own. -/
structure ResultHandover (w : World) (id : Nat) (tasks : List Task) : Prop where
  /-- Each command that was spawned is told of the results of its dependencies. -/
  handed : ∀ a ∈ w.db.taskRunAttempts.rows, a.jobRunId = id → ∀ env, SpawnedWith w a env →
    ∃ task ∈ tasks, task.taskId = a.taskId ∧ ∃ canonical, HandedOver w task a canonical env
  /-- A dependency that succeeded was spawned, too, ... -/
  begun : ∀ b ∈ w.db.taskRunAttempts.rows, b.jobRunId = id → b.status = .succeeded →
    ∃ env, SpawnedWith w b env
  /-- ... and its result is looked for where it was told to write it. -/
  written : (∀ p q, Resolved p w → Resolved q w → p = q) →
    ∀ a ∈ w.db.taskRunAttempts.rows, a.jobRunId = id → ∀ env, SpawnedWith w a env →
    ∀ b, OneSucceeded w.db id b.taskId b → HasDependency tasks a.taskId b.taskId →
    ∀ env', SpawnedWith w b env' →
      env.get (taskInputEnvName b.taskId) = if b.output = "" then none else ownPath env'
  /-- And it is nobody else's. -/
  source : ∀ a ∈ w.db.taskRunAttempts.rows, a.jobRunId = id → ∀ env, SpawnedWith w a env →
    ∀ b ∈ w.db.taskRunAttempts.rows, b.jobRunId = id → ∀ env', SpawnedWith w b env' →
    ∀ name, HasPrefix "FLOWLITE_INPUT_" name → env.get name = ownPath env' →
      name = taskInputEnvName b.taskId ∧ HasDependency tasks a.taskId b.taskId ∧
        OneSucceeded w.db id b.taskId b
  own : ∀ a ∈ w.db.taskRunAttempts.rows, a.jobRunId = id → ∀ env, SpawnedWith w a env →
    ∀ b ∈ w.db.taskRunAttempts.rows, b.jobRunId = id → ∀ env', SpawnedWith w b env' →
      ownPath env = ownPath env' → a = b
  /-- No two attempts are one task's under one number. -/
  numbered : ∀ a ∈ w.db.taskRunAttempts.rows, a.jobRunId = id →
    ∀ b ∈ w.db.taskRunAttempts.rows, b.jobRunId = id →
      a.taskId = b.taskId → a.attempt = b.attempt → a = b

/-- The files of the attempts of a run, whatever its directory. -/
structure OwnFiles (tasks : List Task) : Prop where
  entries : ∀ task ∈ tasks, ∀ dir attempt,
    EntryOf (dir ++ "/.output") (taskOutputPath dir task.taskId attempt) ∧
      EntryOf (dir ++ "/.output") (taskLogPath dir task.taskId attempt)
  apart : ∀ task ∈ tasks, ∀ other ∈ tasks, ∀ dir m n, ¬ (task.taskId = other.taskId ∧ m = n) →
    [taskOutputPath dir task.taskId m, taskLogPath dir task.taskId m,
      taskOutputPath dir other.taskId n, taskLogPath dir other.taskId n].Nodup

/-! ## One spawn -/

section Spawn

variable {w : World} {id : Nat} {jobYaml : JobYaml} {defaults : AppConfigJobDefaults}

/-- The names of a task's dependencies are names of their own. -/
theorem dependency_inj {tasks : List JobYamlTask} {jobId : String}
    (hids : JobYaml.validateTaskIdsFrom jobId [] tasks = .ok ()) {task other : JobYamlTask}
    (htask : task ∈ tasks) (hother : other ∈ tasks)
    (h : taskInputEnvName task.id = taskInputEnvName other.id) : task.id = other.id :=
  congrArg JobYamlTask.id (List.inj_on_of_nodup_map (nodup_of_validateTaskIdsFrom hids).1 htask hother h)

/-- A dependency is a task of the job. -/
theorem dependency_task (hgraph : validateJobTasks jobYaml = .ok ()) {task : JobYamlTask}
    (htask : task ∈ jobYaml.tasks) {taskId : String} (hmem : taskId ∈ task.dependsOn) :
    ∃ other ∈ jobYaml.tasks, other.id = taskId := by
  obtain ⟨-, hdependencies, -⟩ := (validateJobTasks_eq_ok jobYaml).mp hgraph
  exact List.mem_map.mp (dependencyError_eq_none.mp (hdependencies task htask taskId hmem)).2

/-- A command is handed what the attempts of its dependencies left. -/
theorem handedOver_of_equipped (hi : (handover lib).inv w) (hids : jobYaml.validateTaskIds = .ok ())
    (hgraph : validateJobTasks jobYaml = .ok ())
    (hrun : RunOf w.db id (jobYaml.tasks.map (taskRow defaults jobYaml.id))) {a a' : TaskRunAttempt}
    (ha : a ∈ w.db.taskRunAttempts.rows) (hid : a.jobRunId = id) (haid : a'.id = a.id)
    {x : TaskRun} {canonical : String} {env : BTreeMap String String}
    (h : Equipped lib a' x canonical env w) :
    ∃ task ∈ jobYaml.tasks.map (taskRow defaults jobYaml.id), task.taskId = a.taskId ∧
      HandedOver w task a canonical env := by
  obtain ⟨hknown, ⟨htaskRun, hxid⟩, hresolved, jobRun, inputs, previous, dataDir, secrets, -, hbuilt,
    hresults, hhanded⟩ := h
  -- the attempt it was spawned for is the one there is
  have hsame : a = _ := hknown.2 a (haid ▸ Table.find_of_mem ha)
  have hnumber : a'.attempt = a.attempt := by rw [hsame]
  have hof : a'.taskRunId = a.taskRunId := by rw [hsame]
  have hdir : a'.jobRunId = a.jobRunId := by rw [hsame]
  rw [hdir] at hbuilt hhanded
  -- and its task run is one of the run
  obtain ⟨y, hy⟩ := Option.isSome_iff_exists.mp (hi.2.2.2.1.taskRun_of_attempt a ha)
  have hyid : y.id = a.taskRunId := Table.key_of_find hy
  have hyrow := Table.mem_of_find hy
  have hxy : w.db.taskRuns.find x.id = some y := by rw [hxid, hof, hy]
  have hysame : y = _ := htaskRun.2 y hxy
  have hytask : y.taskId = x.taskId := by rw [hysame]
  have hydepends : y.dependsOn = x.dependsOn := by rw [hysame]
  have hyrun : y.jobRunId = x.jobRunId := by rw [hysame]
  obtain ⟨harun, -, hatask⟩ := (hi.2.1.attempted a ha).2 y hyrow hyid
  obtain ⟨row, hrow, hrowtask, hrowdepends⟩ := hrun y hyrow (harun.symm.trans hid)
  obtain ⟨task, htask, rfl⟩ := List.mem_map.mp hrow
  have hdepends : x.dependsOn = task.dependsOn := hydepends.symm.trans hrowdepends
  have hnodup := hresults.nodup hids hgraph htask hdepends
  refine ⟨_, hrow, hrowtask.symm.trans hatask.symm, hresolved, ?_, fun taskId hmem => ?_,
    fun name hname hmem => ?_⟩
  · unfold ownPath
    rw [get_taskOutput hbuilt hnodup, hnumber, hatask, hytask]
  · obtain ⟨b, hb, hinput⟩ := (hhanded taskId (hdepends ▸ hmem)).2 y hxy
    obtain ⟨hbrun, hbtask⟩ := hb.named hi.2.1
    refine ⟨b, ⟨hb.row, hbrun.trans (hyrun.symm.trans harun.symm), hbtask, hb.status, ?_⟩, ?_⟩
    · intro c hc hcrun hctask hstatus
      exact hb.unique hi hc (hcrun.trans (harun.trans hyrun)) hctask hstatus
    · rw [← hinput]
      refine get_taskInput hbuilt hnodup fun e he heq => ?_
      obtain ⟨other, hother, rfl⟩ := dependency_task hgraph htask hmem
      obtain ⟨third, hthird, hthirdid⟩ := dependency_task hgraph htask
        (hdepends ▸ hresults.dependencies (List.mem_map_of_mem he))
      rw [← hthirdid] at heq ⊢
      exact dependency_inj hids hthird hother heq
  · have hget : env.get name ≠ none := fun hnone => BTreeMap.get_eq_none.mp hnone hmem
    rw [get_own hbuilt hnodup (HasPrefix.trans (by decide) hname) (not_parameter_of_input hname)]
      at hget
    have hown := not_not.mp fun hnot => hget (BTreeMap.get_eq_none.mpr hnot)
    obtain ⟨e, he, rfl⟩ := mem_inputs_of_own hname hown
    have hmem := hresults.dependencies (List.mem_map_of_mem he)
    rw [hdepends] at hmem
    exact ⟨e.1, hmem, rfl⟩

/-- The same, of a spawn in the log. -/
theorem handedOver_of_spawned (hi : (handover lib).inv w) (hids : jobYaml.validateTaskIds = .ok ())
    (hgraph : validateJobTasks jobYaml = .ok ())
    (hrun : RunOf w.db id (jobYaml.tasks.map (taskRow defaults jobYaml.id))) {a : TaskRunAttempt}
    (ha : a ∈ w.db.taskRunAttempts.rows) (hid : a.jobRunId = id) {env : BTreeMap String String}
    (h : SpawnedWith w a env) :
    ∃ task ∈ jobYaml.tasks.map (taskRow defaults jobYaml.id), task.taskId = a.taskId ∧
      ∃ canonical, HandedOver w task a canonical env := by
  obtain ⟨e, he, command, at', ho, rfl⟩ := h
  obtain ⟨a', x, canonical, haid, hequipped⟩ := hi.1.spawned e he a.id command at' ho
  obtain ⟨task, htask, htaskId, hhanded⟩ :=
    handedOver_of_equipped hi hids hgraph hrun ha hid haid hequipped
  exact ⟨task, htask, htaskId, canonical, hhanded⟩

end Spawn

/-! ## The files -/

theorem validTaskId {jobYaml : JobYaml} (hids : jobYaml.validateTaskIds = .ok ())
    {defaults : AppConfigJobDefaults} {task : Task}
    (htask : task ∈ jobYaml.tasks.map (taskRow defaults jobYaml.id)) :
    isValidTaskId task.taskId = true := by
  obtain ⟨yaml, hyaml, rfl⟩ := List.mem_map.mp htask
  exact isValidTaskId_of_validateTaskIdsFrom hids yaml hyaml

theorem ownFiles {jobYaml : JobYaml} (hids : jobYaml.validateTaskIds = .ok ())
    (defaults : AppConfigJobDefaults) :
    OwnFiles (jobYaml.tasks.map (taskRow defaults jobYaml.id)) := by
  refine ⟨fun task htask dir attempt => ?_, fun task htask other hother dir m n hne => ?_⟩
  · exact ⟨output_entry (validTaskId hids htask) dir attempt, log_entry (validTaskId hids htask) dir attempt⟩
  · have h := validTaskId hids htask
    have h' := validTaskId hids hother
    have hpair := files_apart dir m n h h'
    have hfirst := (files_apart dir m m h h).2.2
    have hsecond := (files_apart dir n n h' h').2.2
    have hcross := (files_apart dir n m h' h).2.2
    simp only [List.nodup_cons, List.mem_cons, List.not_mem_nil, or_false, not_or,
      not_false_eq_true, List.nodup_nil, and_true]
    exact ⟨⟨hfirst, fun heq => hne (hpair.1 heq), hpair.2.2⟩,
      ⟨fun heq => hcross heq.symm, fun heq => hne (hpair.2.1 heq)⟩, hsecond⟩

/-- A task id names one task of the job. -/
theorem task_eq {jobYaml : JobYaml} (hids : jobYaml.validateTaskIds = .ok ())
    {defaults : AppConfigJobDefaults} {task other : Task}
    (htask : task ∈ jobYaml.tasks.map (taskRow defaults jobYaml.id))
    (hother : other ∈ jobYaml.tasks.map (taskRow defaults jobYaml.id))
    (h : task.taskId = other.taskId) : task = other := by
  obtain ⟨yaml, hyaml, rfl⟩ := List.mem_map.mp htask
  obtain ⟨yaml', hyaml', rfl⟩ := List.mem_map.mp hother
  have hname : taskInputEnvName yaml.id = taskInputEnvName yaml'.id := congrArg taskInputEnvName h
  rw [List.inj_on_of_nodup_map (nodup_of_validateTaskIdsFrom hids).1 hyaml hyaml' hname]

/-! ## The handover -/

/-- **Result handover**: in every reachable state, for every run of a job that is accepted. -/
theorem result_handover (lib : Library) (c : (flowlite lib).Config) (hc : Reachable .any c)
    (config : SeedConfig) (jobPath : String) (jobYaml : JobYaml)
    (hvalid : jobYaml.validate = .ok ()) (job : Job) (tasks : List Task)
    (hseed : seedJob config jobPath jobYaml = .ok (job, tasks)) (id : Nat)
    (hrun : RunOf c.state.db id tasks) :
    ResultHandover c.state id tasks ∧ OwnFiles tasks := by
  obtain ⟨hids, -⟩ := validate_ok hvalid
  obtain ⟨hgraph, -, rfl⟩ := seedJob_ok hseed
  have hi := handover_of_reachable hc
  have hhanded := fun a ha hid env (h : SpawnedWith c.state a env) =>
    handedOver_of_spawned (a := a) hi hids hgraph hrun ha hid h
  refine ⟨⟨hhanded, ?_, ?_, ?_, ?_, fun a ha haid b hb hbid =>
    attempt_eq hi ha hb (haid.trans hbid.symm)⟩, ownFiles hids _⟩
  · intro b hb _ hstatus
    obtain ⟨e, he, hspawned⟩ := begun_of_reachable hc b hb (.inr hstatus)
    obtain ⟨t, o, r⟩ := e
    obtain ⟨⟨command, at', rfl⟩, -⟩ := spawned_eq hspawned
    exact ⟨command.env, _, he, command, at', rfl, rfl⟩
  · intro hsteady a ha haid env henv b hb ⟨other, hother, hname, hmem⟩ env' henv'
    obtain ⟨task, htask, htaskId, canonical, hover⟩ := hhanded a ha haid env henv
    obtain ⟨_, _, _, canonical', hover'⟩ := hhanded b hb.row hb.run env' henv'
    cases task_eq hids htask hother (htaskId.trans hname.symm)
    obtain ⟨b', hb', hget⟩ := hover.dependencies b.taskId hmem
    cases hb'.only b hb.row (hb.run.trans haid.symm) rfl hb.status
    rw [hget, hover'.own, hsteady canonical canonical' hover.resolved hover'.resolved, haid, hb.run]
  · intro a ha haid env henv b hb hbid env' henv' name hname hget
    obtain ⟨task, htask, htaskId, canonical, hover⟩ := hhanded a ha haid env henv
    obtain ⟨row, hrow, hrowId, canonical', hover'⟩ := hhanded b hb hbid env' henv'
    rw [hover'.own] at hget
    have hmem : name ∈ env.keys := by
      by_contra hnot
      rw [BTreeMap.get_eq_none.mpr hnot] at hget
      cases hget
    obtain ⟨taskId, hdepends, rfl⟩ := hover.others name hname hmem
    obtain ⟨b', hb', hinput⟩ := hover.dependencies taskId hdepends
    rw [hinput] at hget
    split_ifs at hget
    -- the path is that of one attempt
    have htaskIdValid : isValidTaskId taskId = true := by
      obtain ⟨yaml, hyaml, rfl⟩ := List.mem_map.mp htask
      obtain ⟨other, hother, rfl⟩ := dependency_task hgraph hyaml hdepends
      exact isValidTaskId_of_validateTaskIdsFrom hids other hother
    obtain ⟨rfl, hnumber⟩ := output_named htaskIdValid (hrowId ▸ validTaskId hids hrow)
      (Option.some.inj hget)
    cases attempt_eq hi hb'.row hb (hb'.run.trans (haid.trans hbid.symm)) hb'.task hnumber
    exact ⟨rfl, ⟨task, htask, htaskId, hdepends⟩, haid ▸ hb'⟩
  · intro a ha haid env henv b hb hbid env' henv' heq
    obtain ⟨task, htask, htaskId, canonical, hover⟩ := hhanded a ha haid env henv
    obtain ⟨row, hrow, hrowId, canonical', hover'⟩ := hhanded b hb hbid env' henv'
    rw [hover.own, hover'.own] at heq
    obtain ⟨hname, hnumber⟩ := output_named (htaskId ▸ validTaskId hids htask)
      (hrowId ▸ validTaskId hids hrow) (Option.some.inj heq)
    exact attempt_eq hi ha hb (haid.trans hbid.symm) hname hnumber

namespace Replay

/-- The job of `etlFile`. -/
def etlConfig : Config where
  app := { app with secrets := [("db", "secret"), ("mode", "delta")] }
  jobs := [jobRow seedConfig.jobDefaults etlFile]
  tasks := etlFile.tasks.map (taskRow seedConfig.jobDefaults "etl")
  schedules := []
  scheduleJobs := []

/-- `extract` writes a result and succeeds, and `load` is spawned behind it. -/
def handsOver : List Event :=
  boot etlConfig ++ request 0 (.submit etlConfig "etl" [] 0 none) 5 ++ wake .jobRunReleaser 4 ++
    wake .jobRunDispatcher 10 ++ wake .taskRunDispatcher 6 ++ wake .taskRunMonitor 4 ++
    wake .taskRunAttemptDispatcher 11 ++
    [.env (.writeFile "/.flowlite/runs/1/.output/extract.1" ⟨#[55]⟩), .env (.exit 1 (.code 0)),
      .env (.groupExit 1), .env (.eof 1 .stdout), .env (.eof 1 .stderr)] ++
    wake .taskRunAttemptMonitor 9 ++ wake .taskRunMonitor 4 ++ wake .taskRunDispatcher 5 ++
    wake .taskRunMonitor 4 ++ wake .taskRunAttemptDispatcher 12

/-- The run is one of `etlFile`, and the second attempt in it was handed this path. -/
def wasHanded (path : String) (c : (flowlite library).Config) : Bool :=
  (c.state.db.taskRuns.rows.all fun x =>
    etlConfig.tasks.any fun task => x.taskId = task.taskId && x.dependsOn = task.dependsOn) &&
  ((c.state.db.taskRunAttempts.find 2).any fun a => a.jobRunId = 1) &&
  c.state.log.any fun e =>
    match e.op with
    | .spawn id command _ => id = 2 && command.env.get "FLOWLITE_INPUT_EXTRACT" = some path
    | _ => false

theorem wasHanded_spec {path : String} {c : (flowlite library).Config}
    (h : wasHanded path c = true) : RunOf c.state.db 1 etlConfig.tasks ∧
      ∃ a ∈ c.state.db.taskRunAttempts.rows, a.jobRunId = 1 ∧ ∃ env, SpawnedWith c.state a env ∧
        env.get "FLOWLITE_INPUT_EXTRACT" = some path := by
  obtain ⟨hchecks, hspawned⟩ := Bool.and_eq_true_iff.mp h
  obtain ⟨hrun, hrow⟩ := Bool.and_eq_true_iff.mp hchecks
  refine ⟨fun x hx _ => ?_, ?_⟩
  · obtain ⟨task, htask, heq⟩ := List.any_eq_true.mp (List.all_eq_true.mp hrun x hx)
    exact ⟨task, htask, by simpa using heq⟩
  · obtain ⟨a, ha, hid⟩ := (Option.any_eq_true _ _).mp hrow
    obtain ⟨⟨t, o, r⟩, he, hop⟩ := List.any_eq_true.mp hspawned
    have hkey : a.id = 2 := Table.key_of_find ha
    refine ⟨a, Table.mem_of_find ha, of_decide_eq_true hid, ?_⟩
    cases o with
    | spawn id command at' =>
        obtain ⟨hattempt, hget⟩ := Bool.and_eq_true_iff.mp hop
        have hattempt : id = 2 := of_decide_eq_true hattempt
        exact ⟨command.env, ⟨_, he, command, at', by rw [hattempt, hkey], rfl⟩,
          of_decide_eq_true hget⟩
    | _ => cases hop

end Replay

open Replay in
/-- `load` is told where `extract` was told to write. -/
theorem result_handover_load : ∃ c : (flowlite library).Config, Reachable .any c ∧
    (∃ a ∈ c.state.db.taskRunAttempts.rows, a.jobRunId = 1 ∧ ∃ env, SpawnedWith c.state a env ∧
      env.get "FLOWLITE_INPUT_EXTRACT" = some "/.flowlite/runs/1/.output/extract.1") ∧
    ResultHandover c.state 1 etlConfig.tasks ∧ OwnFiles etlConfig.tasks := by
  have hrun : (replay .any handsOver).any
      (wasHanded "/.flowlite/runs/1/.output/extract.1") = true := by decide +kernel
  obtain ⟨c, hc, hcheck⟩ := reachable_of_replay hrun
  obtain ⟨hof, hhanded⟩ := wasHanded_spec hcheck
  exact ⟨c, hc, hhanded,
    result_handover library c hc seedConfig "jobs/etl.yaml" etlFile etlFile_accepted _ _ rfl 1
      hof⟩

end Flowlite
