import Flowlite.Logic.JobRuns
import Flowlite.Theorems.Replay

/-!
# A finished job run

Whether a status that is finished ever changes again. Every service writes by id
what it read a while ago; in all but one place the row cannot have moved. The
releaser's can: `delete_job_run` takes a run out of Scheduled too, and a write
that follows puts it back into the queue.
-/

namespace Flowlite

open Store Host Threads Crud Machine Outline Relation

variable {lib : Library}

/-- Every run that is finished in the first world and still there in the second
has the same status in both. -/
def FinishedIsFinal (w w' : World) : Prop :=
  ∀ id x x', w.db.jobRuns.find id = some x → x.status.isFinished = true →
    w'.db.jobRuns.find id = some x' → x'.status = x.status

/-- **Finished is final** in every run of the system in which the releaser writes
no run that was deleted since it was selected. -/
theorem finished_is_final (lib : Library) (c c' : (flowlite lib).Config)
    (hc : Reachable (sparesDeleted lib) c)
    (hstar : ReflTransGen (Next (sparesDeleted lib)) c c') :
    FinishedIsFinal c.state c'.state := by
  intro id x x' hx hfinished hx'
  have hvalid : (base lib).Valid (sparesDeleted lib) := base_valid
  have hbase := hvalid.star_established hc hstar
  have hjobs := (jobRuns_valid (Condition.and_le_right _ _)).star_established
    (hvalid.established hc) hbase
  have hkept : JobRunIs id x.status c'.state := jobRunIs_star
    ((Condition.and_le_left _ _).trans (Condition.and_le_left _ _))
    (Condition.and_le_right _ _) hfinished hjobs
    ⟨Table.lt_next_of_find hx, fun y hy => by rw [hx] at hy; cases hy; rfl⟩
  exact hkept.2 x' hx'

namespace Replay

/-- A run is submitted, the releaser reads that it is due, and somebody deletes it. -/
def deletedAfterRead : List Event :=
  boot config ++ request 0 (.submit config "etl" [] 0 none) 2 ++
    steps (.client 0) 2 ++ wake .jobRunReleaser 3 ++ request 0 (.delete 1) 4

/-- Two runs are submitted and the first deleted. -/
def deletedBeforeRead : List Event :=
  boot config ++ request 0 (.submit config "etl" [] 0 none) 4 ++
    request 1 (.submit config "etl" [] 0 none) 4 ++ request 0 (.delete 1) 4

end Replay

open Replay

/-- One run is deleted and another released by the same pass. -/
theorem finished_is_final_at_delete : ∃ c c' : (flowlite library).Config,
    statusOf 1 c = some .deleted ∧ statusOf 1 c' = some .deleted ∧
      statusOf 2 c' = some .queued ∧ FinishedIsFinal c.state c'.state := by
  have hrun : (replay (sparesDeleted library) deletedBeforeRead).any (fun c =>
      decide (statusOf 1 c = some .deleted) &&
        (exec (sparesDeleted library) c (wake .jobRunReleaser 4)).any fun c' =>
          decide (statusOf 1 c' = some .deleted ∧ statusOf 2 c' = some .queued)) = true := by
    decide +kernel
  obtain ⟨c, c', hc, hstar, hbefore, hafter⟩ := star_of_replay hrun
  obtain ⟨hfirst, hsecond⟩ := of_decide_eq_true hafter
  exact ⟨c, c', of_decide_eq_true hbefore, hfirst, hsecond,
    finished_is_final library c c' hc hstar⟩

/-- Without the condition it fails: the write that follows the delete queues the run. -/
theorem deleted_run_is_queued : ∃ c c' : (flowlite library).Config,
    Reachable .any c ∧ ReflTransGen (Next .any) c c' ∧ statusOf 1 c = some .deleted ∧
      statusOf 1 c' = some .queued ∧ ¬ FinishedIsFinal c.state c'.state := by
  have hrun : (replay .any deletedAfterRead).any (fun c =>
      decide (statusOf 1 c = some .deleted) &&
        (exec .any c (steps (.service .jobRunReleaser) 1)).any fun c' =>
          decide (statusOf 1 c' = some .queued)) = true := by
    decide +kernel
  obtain ⟨c, c', hc, hstar, hbefore, hafter⟩ := star_of_replay hrun
  have hdeleted := of_decide_eq_true hbefore
  have hqueued := of_decide_eq_true hafter
  refine ⟨c, c', hc, hstar, hdeleted, hqueued, fun hfinal => ?_⟩
  obtain ⟨x, hx, hxs⟩ := statusOf_eq hdeleted
  obtain ⟨x', hx', hxs'⟩ := statusOf_eq hqueued
  have := hfinal 1 x x' hx (by rw [hxs]; rfl) hx'
  rw [hxs, hxs'] at this
  cases this

end Flowlite
