import Mathlib.Logic.Relation
import Flowlite.Logic.Dependencies
import Flowlite.Theorems.ResultHandover

/-!
# Task runs in order

A task run begins behind its dependencies, in every run of the system in which what
`JobRunDispatcher` releases is also started, whatever else fails, stops or crashes. So a task
run behind one that has gone wrong, however far behind, never has an attempt, and one that
is skipped is skipped for a reason.
-/

namespace Flowlite

open Store Host Threads Crud Machine Outline Relation

variable {lib : Library}

/-- A task run and one it depends on, in one run. -/
def Store.Database.DependsOn (db : Database) (x y : TaskRun) : Prop :=
  x ∈ db.taskRuns.rows ∧ y ∈ db.taskRuns.rows ∧ y.jobRunId = x.jobRunId ∧ y.taskId ∈ x.dependsOn

namespace Replay

/-- The command of `extract` ends with this code, and its monitors settle it with so many
operations. -/
def extractEnds (code n : Nat) : List Event :=
  boot etlConfig ++ request 0 (.submit etlConfig "etl" [] 0 none) 5 ++ wake .jobRunReleaser 4 ++
    wake .jobRunDispatcher 10 ++ wake .taskRunDispatcher 6 ++ wake .taskRunMonitor 4 ++
    wake .taskRunAttemptDispatcher 11 ++
    [.env (.exit 1 (.code code)), .env (.groupExit 1), .env (.eof 1 .stdout),
      .env (.eof 1 .stderr)] ++
    wake .taskRunAttemptMonitor n ++ wake .taskRunMonitor 4

/-- The status of a task run. -/
def taskRunStatusOf (id : Nat) (c : (flowlite library).Config) : Option TaskRunStatus :=
  (c.state.db.taskRuns.find id).map (·.status)

end Replay

/-! ## What has gone wrong reaches every task run behind it -/

/-- A task run that has begun, or has attempts, has its dependencies behind it. -/
structure RunInOrder (w : World) : Prop where
  attempted : ∀ a ∈ w.db.taskRunAttempts.rows, ∀ x ∈ w.db.taskRuns.rows, x.id = a.taskRunId →
    x.status.hasBegun = true
  begun : ∀ x ∈ w.db.taskRuns.rows, x.status.hasBegun = true → MayBegin x w
  unique : ∀ x ∈ w.db.taskRuns.rows, ∀ y ∈ w.db.taskRuns.rows, x.jobRunId = y.jobRunId →
    x.taskId = y.taskId → x = y

theorem runInOrder {cond : (flowlite lib).Condition} (ho : Ordered cond)
    {c : (flowlite lib).Config} (hc : Reachable cond c) : RunInOrder c.state := by
  have hmoved := (taskRuns_valid ho.gated).inv hc
  have hdependencies := (dependencies_valid ho.gated ho.taskRuns).inv hc
  have hsameJob : (sameJob lib).inv c.state := (sameJob_valid ho.grounded.base).inv hc
  exact ⟨hmoved.attempted, fun x hx => (hdependencies x hx).1,
    fun x hx y hy => taskRun_eq hsameJob hx hy⟩

/-- What depends on a task run that has gone wrong does not begin. -/
theorem RunInOrder.direct {w : World} (h : RunInOrder w) {x y : TaskRun}
    (hdepends : w.db.DependsOn x y) (hbad : y.status ≠ .succeeded) : x.status.hasBegun = false := by
  obtain ⟨hx, hy, hrun, htask⟩ := hdepends
  by_contra hbegun
  obtain ⟨z, hz, hzrun, hztask, hsucceeded⟩ := h.begun x hx (by simpa using hbegun) y.taskId htask
  have heq : z = y := h.unique z hz y hy (hzrun.trans hrun.symm) hztask
  rw [heq] at hsucceeded
  exact hbad hsucceeded

/-- So neither does what depends on that. -/
theorem RunInOrder.behind {w : World} (h : RunInOrder w) {x y : TaskRun}
    (hbehind : TransGen w.db.DependsOn x y) (hbad : y.status ≠ .succeeded) :
    x.status.hasBegun = false := by
  induction hbehind using TransGen.head_induction_on with
  | single hdepends => exact h.direct hdepends hbad
  | head hdepends _ ih =>
      refine h.direct hdepends fun hsucceeded => ?_
      rw [hsucceeded] at ih
      cases ih

/-- Task runs run in the order of their dependencies: an attempt is made only of a task run all
of whose dependencies have succeeded, and nothing behind one that has settled without success
has an attempt, or settles but as skipped. -/
structure DependenciesFirst (w : World) : Prop where
  attempted : ∀ a ∈ w.db.taskRunAttempts.rows, ∀ x ∈ w.db.taskRuns.rows, x.id = a.taskRunId →
    ∀ taskId ∈ x.dependsOn, ∃ y, w.db.DependsOn x y ∧ y.taskId = taskId ∧ y.status = .succeeded
  doomed : ∀ x y, TransGen w.db.DependsOn x y →
    TaskRunDispatcher.isUnsuccessful y.status = true →
      (∀ a ∈ w.db.taskRunAttempts.rows, a.taskRunId ≠ x.id) ∧
        (x.status.isFinished = true → x.status = .skipped)

/-- **Dependencies come first**, in every state the system reaches. -/
theorem dependencies_come_first (lib : Library) (c : (flowlite lib).Config)
    (hc : Reachable (startsReleased lib) c) : DependenciesFirst c.state := by
  obtain ⟨cond, hentails, ho⟩ := ordered_of_starts (.refl (startsReleased lib))
  have horder := runInOrder ho (hentails.reachable hc)
  refine ⟨fun a ha x hx hid taskId htask => ?_, fun x y hbehind hbad => ?_⟩
  · obtain ⟨y, hy, hrun, hytask, hsucceeded⟩ :=
      horder.begun x hx (horder.attempted a ha x hx hid) taskId htask
    exact ⟨y, ⟨hx, hy, hrun, hytask ▸ htask⟩, hytask, hsucceeded⟩
  · have hrow : x ∈ c.state.db.taskRuns.rows := by
      obtain ⟨z, hz, -⟩ := TransGen.head'_iff.mp hbehind
      exact hz.1
    have hnot : x.status.hasBegun = false := horder.behind hbehind fun hsucceeded => by
      rw [hsucceeded] at hbad
      cases hbad
    refine ⟨fun a ha htask => ?_, skipped_of_not_begun hnot⟩
    rw [horder.attempted a ha x hrow htask.symm] at hnot
    cases hnot

open Replay in
/-- `load` has an attempt, behind `extract` that has succeeded. -/
theorem dependencies_come_first_load : ∃ c : (flowlite library).Config,
    taskRunStatusOf 1 c = some .succeeded ∧ attemptStatusOf 2 c = some .queued ∧
      DependenciesFirst c.state := by
  have hrun : (replay (startsReleased library) (extractEnds 0 8 ++ wake .taskRunDispatcher 5 ++
      wake .taskRunMonitor 4)).any (fun c => decide
        (taskRunStatusOf 1 c = some .succeeded ∧ attemptStatusOf 2 c = some .queued)) = true := by
    decide +kernel
  obtain ⟨c, hc, hcheck⟩ := reachable_of_replay hrun
  obtain ⟨hextract, hload⟩ := of_decide_eq_true hcheck
  exact ⟨c, hextract, hload, dependencies_come_first library c hc⟩

/-! ## Skipped for a reason -/

/-- **A skipped task run was skipped for a reason**: its run was asked to stop, or was deleted
before it was queued, or a dependency has settled without success. -/
theorem skipped_for_a_reason (lib : Library) (c : (flowlite lib).Config)
    (hc : Reachable (startsReleased lib) c) (x : TaskRun) (hx : x ∈ c.state.db.taskRuns.rows)
    (hskipped : x.status = .skipped) :
    IsStopped c.state x.jobRunId ∨ c.state.Deleted x.jobRunId ∨
      ∃ y, c.state.db.DependsOn x y ∧ TaskRunDispatcher.isUnsuccessful y.status = true := by
  obtain ⟨cond, hentails, ho⟩ := ordered_of_starts (.refl (startsReleased lib))
  have hinv := (dependencies_valid ho.gated ho.taskRuns).inv (hentails.reachable hc)
  refine ((hinv x hx).2 hskipped).imp_right (Or.imp_right ?_)
  rintro ⟨taskId, htask, status, hbad, y, hy, hrun, rfl, rfl⟩
  exact ⟨y, ⟨hx, hy, hrun, htask⟩, hbad⟩

open Replay in
/-- `load` is skipped because `extract` has failed. -/
theorem skipped_for_a_reason_load : ∃ (c : (flowlite library).Config) (x : TaskRun),
    x ∈ c.state.db.taskRuns.rows ∧ x.status = .skipped ∧
      (IsStopped c.state x.jobRunId ∨ c.state.Deleted x.jobRunId ∨
        ∃ y, c.state.db.DependsOn x y ∧ TaskRunDispatcher.isUnsuccessful y.status = true) := by
  have hrun : (replay (startsReleased library) (extractEnds 1 7 ++ wake .taskRunDispatcher 5)).any
      (fun c => decide (taskRunStatusOf 2 c = some .skipped)) = true := by
    decide +kernel
  obtain ⟨c, hc, hcheck⟩ := reachable_of_replay hrun
  obtain ⟨x, hx, hskipped⟩ := Option.map_eq_some_iff.mp (of_decide_eq_true hcheck)
  have hrow := Table.mem_of_find hx
  exact ⟨c, x, hrow, hskipped, skipped_for_a_reason library c hc x hrow hskipped⟩

end Flowlite
