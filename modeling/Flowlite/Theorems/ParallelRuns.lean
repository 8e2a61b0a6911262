import Flowlite.Logic.Slots
import Flowlite.Theorems.Replay

/-!
# A job's limit on parallel runs

Never more runs of a job than it allows are under way, counting a run from the release
of its task runs on. What a count of the task runs alone would add are the runs that
are just being skipped: their task runs end first, and they have no slot.
-/

namespace Flowlite

open Store Host Threads Crud Machine Outline

/-- The unfinished runs of a job that are running or have a task run that was released. -/
def Store.Database.startedRuns (db : Database) (jobId : String) : Nat :=
  db.jobRuns.count fun x => x.jobId = jobId && !x.status.isFinished && (x.status = .running ||
    db.taskRuns.rows.any fun y => y.jobRunId = x.id && y.status.hasStarted)

/-- The unfinished runs of a job with a task run that is planned no more. -/
def Store.Database.unplannedRuns (db : Database) (jobId : String) : Nat :=
  db.jobRuns.count fun x => x.jobId = jobId && !x.status.isFinished &&
    db.taskRuns.rows.any fun y => y.jobRunId = x.id && y.status ≠ .planned

theorem running_of_started {status : JobRunStatus} (h : status.hasStarted = true)
    (hunfinished : (!status.isFinished) = true) : status = .running := by
  cases status <;> simp_all [JobRunStatus.hasStarted, JobRunStatus.isFinished]

/-- Every started run has the slot it is counted in. -/
theorem startedRuns_le {jobId : String} {m : Nat} {w : World} (hreleased : ReleasedFirst w)
    (hgate : ReleasedStarts w) (hslots : SlotsHeld jobId m w) : w.db.startedRuns jobId ≤ m := by
  refine le_trans (Table.count_le fun x hx hcounts => ?_) hslots.busy
  refine ⟨x, hx, rfl, ?_⟩
  obtain ⟨hrow, hstarted⟩ := Bool.and_eq_true_iff.mp hcounts
  obtain ⟨hjob, hunfinished⟩ := Bool.and_eq_true_iff.mp hrow
  rcases Bool.or_eq_true_iff.mp hstarted with hrunning | hany
  · simp only [hjob, hrunning, Bool.true_or, Bool.and_self]
  · obtain ⟨y, hy, hyrow⟩ := List.any_eq_true.mp hany
    obtain ⟨hrun, hyStarted⟩ := Bool.and_eq_true_iff.mp hyrow
    have hid : w.Released x.id := by
      rw [← of_decide_eq_true hrun]
      exact hreleased.started y hy hyStarted
    rcases hgate.started x.id hid with hreleasing | hpast
    · simp only [hjob, hreleasing, hunfinished, decide_true, Bool.and_self, Bool.or_true]
    · -- a run that has been released and is not finished is running
      have hpast := hpast.2 x (Table.find_of_mem hx)
      have hrunning := running_of_started hpast hunfinished
      simp only [hjob, hrunning, decide_true, Bool.true_or, Bool.and_self]

/-- **A job has at most as many runs under way as it allows**, in every run of the system
in which what is released also gets its status written. -/
theorem parallel_runs_bounded (lib : Library) (jobId : String) (m : Nat)
    (c : (flowlite lib).Config) (hc : Reachable (startsWhole lib jobId m) c) :
    c.state.db.startedRuns jobId ≤ m := by
  have hbase := base_valid.established hc
  have hreleased := (releases_valid (Condition.and_le_right _ _)).inv hbase
  have hjobs := (jobRuns_valid (Condition.and_le_right _ _)).established hbase
  have hhalts := (halts_valid ((Condition.and_le_left _ _).trans (Condition.and_le_right _ _))
    (Condition.and_le_right _ _)).established hjobs
  have hgate : (gate lib).Valid _ := gate_valid
    (((Condition.and_le_left _ _).trans (Condition.and_le_left _ _)).trans
      ((Condition.and_le_left _ _).trans (startsWhole_le lib jobId m)))
    ((Condition.and_le_left _ _).trans <| (Condition.and_le_left _ _).trans
      (Condition.and_le_right _ _))
    ((Condition.and_le_left _ _).trans (Condition.and_le_right _ _)) (Condition.and_le_right _ _)
  have hslots : SlotsHeld jobId m c.state := (slots_valid
    ((Condition.and_le_left _ _).trans <| (Condition.and_le_left _ _).trans <|
      (Condition.and_le_left _ _).trans (Condition.and_le_left _ _))
    ((Condition.and_le_left _ _).trans <| (Condition.and_le_left _ _).trans <|
      (Condition.and_le_left _ _).trans (Condition.and_le_right _ _))
    ((Condition.and_le_left _ _).trans <| (Condition.and_le_left _ _).trans
      (Condition.and_le_right _ _))
    (Condition.and_le_right _ _)).inv (hgate.established hhalts)
  exact startedRuns_le hreleased (hgate.inv hhalts) hslots

namespace Replay

/-- The job of `config`, one run of which may be under way. -/
def oneAtATime : Config := { config with jobs := [{ job with maxParallelRuns := 1 }] }

/-- Two runs are submitted and queued, and the dispatcher starts the first. -/
def overlapping : List Event :=
  boot oneAtATime ++ request 0 (.submit oneAtATime "etl" [] 0 none) 4 ++
    request 0 (.submit oneAtATime "etl" [] 0 none) 4 ++ wake .jobRunReleaser 7 ++
    wake .jobRunDispatcher 13

/-- The second is stopped, and the dispatcher is about to settle it. -/
def skipping : List Event :=
  overlapping ++ request 0 (.stop 2) 2 ++ wake .jobRunDispatcher 4

end Replay

open Replay in
/-- The first run is under way, and the second one waits. -/
theorem parallel_runs_bounded_at_one : ∃ c : (flowlite library).Config,
    statusOf 1 c = some .running ∧ statusOf 2 c = some .queued ∧
      c.state.db.startedRuns "etl" ≤ 1 := by
  have hrun : (replay (startsWhole library "etl" 1) overlapping).any (fun c => decide
      (statusOf 1 c = some .running ∧ statusOf 2 c = some .queued)) = true := by
    decide +kernel
  obtain ⟨c, hc, hcheck⟩ := reachable_of_replay hrun
  obtain ⟨hfirst, hsecond⟩ := of_decide_eq_true hcheck
  exact ⟨c, hfirst, hsecond, parallel_runs_bounded library "etl" 1 c hc⟩

open Replay in
/-- The task runs of a run that is being skipped are planned no more before the run is
finished: at that moment two runs of a job that allows one have such task runs. -/
theorem skipped_run_leaves_planned : ∃ c : (flowlite library).Config,
    Reachable (startsWhole library "etl" 1) c ∧ 1 < c.state.db.unplannedRuns "etl" := by
  have hrun : (replay (startsWhole library "etl" 1) skipping).any (fun c => decide
      (1 < c.state.db.unplannedRuns "etl")) = true := by
    decide +kernel
  obtain ⟨c, hc, hcheck⟩ := reachable_of_replay hrun
  exact ⟨c, hc, of_decide_eq_true hcheck⟩

end Flowlite
