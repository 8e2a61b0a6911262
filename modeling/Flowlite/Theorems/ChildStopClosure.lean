import Flowlite.Logic.Children
import Flowlite.Theorems.Replay

/-!
# The runs of an attempt that failed

Whether an attempt that ended without succeeding ever leaves a run it submitted
going on. Three ways lead there: the dispatcher ends an attempt it finds already
spawned for without a look at its runs; a run goes in between the reading of an
attempt's runs and the status that ends it; and one goes in after that status, on
the word of a check made before it.
-/

namespace Flowlite

open Store Host Threads Crud Machine Outline

/-- Every unfinished run submitted by an attempt that failed, timed out, was aborted
or is invalid has been asked to stop. -/
def ChildStopClosure (w : World) : Prop :=
  ∀ x ∈ w.db.taskRunAttempts.rows, x.status.isUnsuccessful = true → ChildrenStopped x.id w

/-- **Child stop closure** in every run of the system in which nobody submits from
inside an attempt that has ended or is just being ended, the dispatcher ends no
attempt with a run left to stop, and no deleted run is queued again. -/
theorem child_stop_closure (lib : Library) (c : (flowlite lib).Config)
    (hc : Reachable ((sparesDeleted lib).and (seesChildren lib)) c) :
    ChildStopClosure c.state := by
  have hbase := base_valid.established hc
  have hjobs := (jobRuns_valid (Condition.and_le_right _ _)).established hbase
  refine (childStops_valid ?_ ?_ ?_ ?_).inv hjobs
  · exact (Condition.and_le_left _ _).trans (Condition.and_le_right _ _)
  · exact (Condition.and_le_left _ _).trans
      ((Condition.and_le_left _ _).trans (Condition.and_le_left _ _))
  · exact Condition.and_le_right _ _
  · exact (Condition.and_le_left _ _).trans
      ((Condition.and_le_left _ _).trans (Condition.and_le_right _ _))

namespace Replay

/-- The command of the attempt submits a run itself. -/
def submitChild : List Event := request 1 (.submit config "etl" [] 0 (some 1)) 6

/-- The command submits a run and fails, and the monitor stops what it submitted. -/
def childStopped : List Event :=
  spawned ++ submitChild ++
    [.env (.exit 1 (.code 1)), .env (.eof 1 .stdout), .env (.eof 1 .stderr)] ++
    wake .taskRunAttemptMonitor 9

/-- The command submits a run; `serve` ends before the attempt is set to running, and
when it is started again the dispatcher settles the attempt. -/
def childLeft : List Event :=
  attempted ++ wake .taskRunAttemptDispatcher 9 ++ submitChild ++ [.env .crash] ++ boot config ++
    wake .taskRunAttemptDispatcher 3

end Replay

open Replay in
/-- The attempt failed, and the run it submitted has been asked to stop. -/
theorem child_stop_closure_at_exit : ∃ c : (flowlite library).Config,
    attemptStatusOf 1 c = some .failed ∧ statusOf 2 c = some .scheduled ∧
      IsStopped c.state 2 ∧ ChildStopClosure c.state := by
  have hrun : (replay ((sparesDeleted library).and (seesChildren library)) childStopped).any
      (fun c => decide (attemptStatusOf 1 c = some .failed ∧ statusOf 2 c = some .scheduled ∧
        IsStopped c.state 2)) = true := by
    decide +kernel
  obtain ⟨c, hc, hcheck⟩ := reachable_of_replay hrun
  obtain ⟨hfailed, hscheduled, hstopped⟩ := of_decide_eq_true hcheck
  exact ⟨c, hfailed, hscheduled, hstopped, child_stop_closure library c hc⟩

open Replay in
/-- Without the condition it fails: the attempt is invalid, and its run goes on. -/
theorem child_of_invalid_attempt_goes_on : ∃ c : (flowlite library).Config,
    Reachable .any c ∧ attemptStatusOf 1 c = some .invalid ∧ statusOf 2 c = some .scheduled ∧
      ¬ IsStopped c.state 2 ∧ ¬ ChildStopClosure c.state := by
  have hrun : (replay .any childLeft).any (fun c => decide (attemptStatusOf 1 c = some .invalid ∧
      statusOf 2 c = some .scheduled ∧ ¬ IsStopped c.state 2 ∧
        ¬ ChildrenStopped 1 c.state)) = true := by
    decide +kernel
  obtain ⟨c, hc, hcheck⟩ := reachable_of_replay hrun
  obtain ⟨hinvalid, hscheduled, hstopped, hleft⟩ := of_decide_eq_true hcheck
  refine ⟨c, hc, hinvalid, hscheduled, hstopped, fun hclosed => hleft ?_⟩
  obtain ⟨x, hx, hxs⟩ := Option.map_eq_some_iff.mp hinvalid
  have hkey : x.id = 1 := Table.key_of_find hx
  exact hkey ▸ hclosed x (Table.mem_of_find hx) (by rw [hxs]; rfl)

end Flowlite
