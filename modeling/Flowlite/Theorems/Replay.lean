import Flowlite.Logic.Effects

/-!
# Replayed runs

Runs of a small data directory, event by event: how the theorems that follow are
met, and where they are needed. A replayed run is a run (`replay_reachable`).
-/

namespace Flowlite

open Store Host Threads Crud Machine Relation

namespace Replay

/-- A schedule that is due at every full minute. -/
def library : Library where
  toRfc3339 _ := "1970-01-01T00:00:00+00:00"
  getNextRuns _ after count :=
    (List.range count).map fun n => seconds 60 * (after / seconds 60 + 1 + n)

def app : AppConfig where
  dataDir := "data"
  maxTaskOutputBytes := 1048576
  maxRunningAttempts := 0
  killGraceSeconds := 10
  concurrencyLimits := []
  secrets := []
  keepRuns := 100
  keepRunsTotal := 10000
  maxDeletesPerPass := 100

def job : Job where
  jobId := "etl"
  name := "etl"
  description := ""
  maxParallelRuns := 0
  keepRuns := 100
  parameters := []
  env := []
  secretEnv := []
  onFailureRecipients := []
  onSuccessRecipients := []
  limits := []

def task (taskId : String) (dependsOn : List String) : Task where
  taskId
  jobId := "etl"
  command := "true"
  stdin := ""
  dependsOn
  limits := []
  timeout := 60
  idleTimeout := 0
  maxRetries := 0
  retryDelay := 0
  env := []
  secretEnv := []
  workingDir := ""

/-- One job of one task. -/
def config : Config where
  app := app
  jobs := [job]
  tasks := [task "extract" []]
  schedules := []
  scheduleJobs := []

/-- The same, with a task that may be retried so many times. -/
def retried (maxRetries : Nat) : Config :=
  { config with tasks := [{ task "extract" [] with maxRetries }] }

/-- A data directory nobody has used yet, and nobody at work in it. -/
def fresh : (flowlite library).Config := ⟨.fresh, fun _ => none⟩

abbrev Event := Machine.Event (flowlite library)

/-- The next operation of `t`. -/
def step (t : Tid) (ch : Choice := {}) : Event := .run t ch

/-- The next `n` operations of `t`, none of which fails. -/
def steps (t : Tid) (n : Nat) : List Event := List.replicate n (step t)

/-- A pass, from its start through its first `n` operations. -/
def wake (s : Service) (n : Nat) : List Event :=
  .start (.service s) (.pass 10) :: steps (.service s) n

/-- A request of caller `c`, from its start through its first `n` operations. -/
def request (c : Nat) (r : Request) (n : Nat) : List Event :=
  .start (.client c) (.request r) :: steps (.client c) n

/-- `serve` starts, and there is nothing to recover. -/
def boot (config : Config) : List Event := .env (.boot config) :: wake .recovery 3

/-! ### The way of one run -/

/-- A run of the job of `config` is submitted. -/
def submitted : List Event := boot config ++ request 0 (.submit config "etl" [] 0 none) 4

/-- It is released, and started. -/
def started : List Event := submitted ++ wake .jobRunReleaser 4 ++ wake .jobRunDispatcher 9

/-- Its task run is started, and given an attempt. -/
def attempted : List Event := started ++ wake .taskRunDispatcher 4 ++ wake .taskRunMonitor 4

/-- The attempt's command is spawned. -/
def spawned : List Event := attempted ++ wake .taskRunAttemptDispatcher 11

/-- A run of the fresh directory. -/
def replay (cond : (flowlite library).Condition) [cond.Checked] (es : List Event) :
    Option (flowlite library).Config :=
  exec cond fresh es

theorem replay_reachable {cond : (flowlite library).Condition} [cond.Checked] {es : List Event}
    {c : (flowlite library).Config} (h : replay cond es = some c) : Reachable cond c :=
  exec_reachable (.init rfl) h

/-- What a check finds at the end of a replayed run is so in some reachable state. -/
theorem reachable_of_replay {cond : (flowlite library).Condition} [cond.Checked]
    {es : List Event} {check : (flowlite library).Config → Bool}
    (h : (replay cond es).any check = true) : ∃ c, Reachable cond c ∧ check c = true := by
  obtain ⟨c, hc, hcheck⟩ := (Option.any_eq_true _ _).mp h
  exact ⟨c, replay_reachable hc, hcheck⟩

/-- The same for what a check finds at the end of one run and of one that goes on
from there. -/
theorem star_of_replay {cond : (flowlite library).Condition} [cond.Checked]
    {es fs : List Event} {before after : (flowlite library).Config → Bool}
    (h : (replay cond es).any (fun c => before c && (exec cond c fs).any after) = true) :
    ∃ c c', Reachable cond c ∧ ReflTransGen (Next cond) c c' ∧
      before c = true ∧ after c' = true := by
  obtain ⟨c, hc, hcheck⟩ := (Option.any_eq_true _ _).mp h
  obtain ⟨hbefore, hrest⟩ := Bool.and_eq_true_iff.mp hcheck
  obtain ⟨c', hc', hafter⟩ := (Option.any_eq_true _ _).mp hrest
  exact ⟨c, c', replay_reachable hc, exec_star hc', hbefore, hafter⟩

/-- The same for what a check finds of one step after a replayed run, which it adds to
the log. -/
theorem next_of_replay {cond : (flowlite library).Condition} [cond.Checked] {es : List Event}
    {e : Event} {check : (flowlite library).Config → (flowlite library).Config → Host.Event → Bool}
    (h : (replay cond es).any (fun c => (execEvent cond c e).any fun c' =>
      c.state.log.length < c'.state.log.length && c'.state.log.head?.any (check c c')) = true) :
    ∃ c c' added, Reachable cond c ∧ Next cond c c' ∧ c'.state.log = added :: c.state.log ∧
      check c c' added = true := by
  obtain ⟨c, hc, hstep⟩ := (Option.any_eq_true _ _).mp h
  obtain ⟨c', hc', hcheck⟩ := (Option.any_eq_true _ _).mp hstep
  obtain ⟨hgrown, hcheck⟩ := Bool.and_eq_true_iff.mp hcheck
  have hnext := execEvent_next hc'
  rcases next_log hnext with hsame | ⟨added, hadded⟩
  · rw [hsame] at hgrown
    exact absurd (of_decide_eq_true hgrown) (lt_irrefl _)
  · rw [hadded] at hcheck
    exact ⟨c, c', added, replay_reachable hc, hnext, hadded, hcheck⟩

/-- The status of a job run. -/
def statusOf (id : Nat) (c : (flowlite library).Config) : Option JobRunStatus :=
  (c.state.db.jobRuns.find id).map (·.status)

theorem statusOf_eq {id : Nat} {c : (flowlite library).Config} {status : JobRunStatus}
    (h : statusOf id c = some status) :
    ∃ x, c.state.db.jobRuns.find id = some x ∧ x.status = status :=
  Option.map_eq_some_iff.mp h

/-- The status of an attempt. -/
def attemptStatusOf (id : Nat) (c : (flowlite library).Config) : Option TaskRunAttemptStatus :=
  (c.state.db.taskRunAttempts.find id).map (·.status)

end Replay

end Flowlite
