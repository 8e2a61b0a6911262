import Flowlite.Logic.Submissions
import Flowlite.Theorems.Replay

/-!
# A submitted run

Whether the services ever act on half a run. The rows of a submission are visible
one by one, and nothing tells the last of them from the others: a service that
comes by in between releases, starts and ends the run as it finds it.
-/

namespace Flowlite

open Store Host Threads Crud Machine Outline

/-- No run is running or finished with a task run of it unwritten or planned, and
(`full`) none that was begun to be executed lacks a row it was submitted with. -/
def SubmissionIsAtomic (full : Bool) (w : World) : Prop :=
  (∀ id x, w.db.jobRuns.find id = some x → x.status = .running ∨ x.status.isFinished = true →
    TasksWritten w id ∧ NonePlanned w id) ∧
  (full = true → ∀ id, Executing w id → TasksWritten w id ∧ NotificationsWritten w id)

/-- **Submission is atomic** in every run of the system in which no run is released,
ended or deleted before the statements of its submission are through. -/
theorem submission_is_atomic (lib : Library) (full : Bool) (c : (flowlite lib).Config)
    (hc : Reachable (awaitsSubmission full lib) c) : SubmissionIsAtomic full c.state := by
  have hbase := base_valid.established hc
  have hjobs := (jobRuns_valid (Condition.and_le_right _ _)).established hbase
  have hvalid : (submissions full lib).Valid
      (((awaitsSubmission full lib).and (base lib).established).and (jobRuns lib).established) :=
    submissions_valid
    ((Condition.and_le_left _ _).trans (Condition.and_le_right _ _)) (Condition.and_le_right _ _)
    ((Condition.and_le_left _ _).trans (Condition.and_le_left _ _))
  obtain ⟨hsettled, hexecuting⟩ := hvalid.inv hjobs
  refine ⟨fun id x hx => (hsettled id x hx).2, fun hfull id hexec => ?_⟩
  exact ⟨(hexecuting id hexec).1, (hexecuting id hexec).2 hfull⟩

open Replay in
/-- The run of one task is started, and the task run is there. -/
theorem submission_is_atomic_at_start : ∃ c : (flowlite library).Config,
    statusOf 1 c = some .running ∧ c.state.db.taskRuns.rows.length = 1 ∧
      SubmissionIsAtomic true c.state := by
  have hrun : (replay (awaitsSubmission true library) started).any (fun c => decide
      (statusOf 1 c = some .running ∧ c.state.db.taskRuns.rows.length = 1)) = true := by
    decide +kernel
  obtain ⟨c, hc, hcheck⟩ := reachable_of_replay hrun
  obtain ⟨hrunning, hrows⟩ := of_decide_eq_true hcheck
  exact ⟨c, hrunning, hrows, submission_is_atomic library true c hc⟩

namespace Replay

/-- The insert of the one task run fails, which ends the submission; the run it has
already written is released, started and settled. -/
def halfSubmitted : List Event :=
  boot config ++ request 0 (.submit config "etl" [] 0 none) 3 ++
    [step (.client 0) { fails := true }] ++ wake .jobRunReleaser 4 ++ wake .jobRunDispatcher 9 ++
    wake .jobRunMonitor 4

end Replay

open Replay in
/-- Without the condition it fails: the run succeeds, and nothing of it was ever run. -/
theorem half_submitted_run_succeeds : ∃ c : (flowlite library).Config,
    Reachable .any c ∧ c.pool (.client 0) = none ∧ statusOf 1 c = some .succeeded ∧
      c.state.db.taskRuns.rows = [] ∧ ¬ TasksWritten c.state 1 ∧
      ¬ SubmissionIsAtomic false c.state ∧ ¬ SubmissionIsAtomic true c.state := by
  have hrun : (replay .any halfSubmitted).any (fun c => decide
      ((c.pool (.client 0)).isNone = true ∧ statusOf 1 c = some .succeeded ∧
        c.state.db.taskRuns.rows.isEmpty = true ∧ ¬ TasksWritten c.state 1)) = true := by
    decide +kernel
  obtain ⟨c, hc, hcheck⟩ := reachable_of_replay hrun
  obtain ⟨hidle, hsucceeded, hrows, hunwritten⟩ := of_decide_eq_true hcheck
  obtain ⟨x, hx, hxs⟩ := statusOf_eq hsucceeded
  have hnot : ∀ full, ¬ SubmissionIsAtomic full c.state := fun full hatomic =>
    hunwritten (hatomic.1 1 x hx (.inr (by rw [hxs]; rfl))).1
  exact ⟨c, hc, Option.isNone_iff_eq_none.mp hidle, hsucceeded, List.isEmpty_iff.mp hrows,
    hunwritten, hnot false, hnot true⟩

end Flowlite
