import Flowlite.Logic.Retention
import Flowlite.Theorems.Replay

/-!
# What retention deletes

The run a pass selected has finished and owes nothing. What goes with it is looked at
for its status alone: a descendant that has finished and still owes a notification is
deleted with it, and the budget of a pass counts the runs it selects, not those that
go along.
-/

namespace Flowlite

open Store Host Threads Crud Machine Outline Relation

/-- The runs an event of the log deleted. -/
def Host.Event.deletes (e : Host.Event) : Option (List Nat) :=
  match e.op, e.result with
  | .write (.deleteJobRunsWithChildren _), .ok ids => some ids
  | _, _ => none

theorem deletes_eq {e : Host.Event} {ids : List Nat} (h : e.deletes = some ids) :
    ∃ t f, e = ⟨t, .write (.deleteJobRunsWithChildren f), .ok ids⟩ := by
  obtain ⟨t, o, r⟩ := e
  unfold Host.Event.deletes at h
  dsimp only at h
  split at h
  · cases h
    exact ⟨t, _, rfl⟩
  · cases h

/-- A delete that takes these runs takes finished ones that owe nothing, and keeps the
pass within its cap, if what a pass deletes is `counted`. -/
structure DeletesOnly (counted : Bool) (w : World) (ids : List Nat) (w' : World) : Prop where
  deleted : ∀ x ∈ w.db.jobRuns.rows, w'.db.jobRuns.find x.id = none → x.id ∈ ids
  finished : ∀ id ∈ ids, ∀ x, w.db.jobRuns.find id = some x → x.status.isFinished = true
  owesNothing : ∀ id ∈ ids, ∀ n ∈ w.db.jobRunNotifications.rows, n.jobRunId = id →
    n.status ≠ .pending
  capped : counted = true → 0 < w.deleteCap → deletedInPass w'.log ≤ w.deleteCap

/-- No finished run is written over or added to, and what is below a deleted run owes
nothing, and does not go along where there is a cap and what is deleted is counted. -/
abbrev keepsToSelected (lib : Library) (counted : Bool) : (flowlite lib).Condition :=
  (sparesDeleted lib).and ((sealsFinished lib).and (deletesAlone lib counted))

/-- **Retention deletes only what it may** in every run of the system in which what it
deletes along is nothing it would not have selected. Its cap alone asks that nothing goes
along. -/
theorem retention_deletes_only (lib : Library) (counted : Bool) (c c' : (flowlite lib).Config)
    (hc : Reachable (keepsToSelected lib counted) c)
    (hn : Next (keepsToSelected lib counted) c c')
    (e : Host.Event) (hlog : c'.state.log = e :: c.state.log) (ids : List Nat)
    (hdeletes : e.deletes = some ids) : DeletesOnly counted c.state ids c'.state := by
  obtain ⟨t, f, rfl⟩ := deletes_eq hdeletes
  have hbase : (base lib).Valid (keepsToSelected lib counted) := base_valid
  have hjobs : (jobRuns lib).Valid _ :=
    jobRuns_valid (Condition.and_le_right (keepsToSelected lib counted) _)
  have hbase_jobs := Condition.and_le_left
    ((keepsToSelected lib counted).and (base lib).established) (jobRuns lib).established
  have hcond := hbase_jobs.trans (Condition.and_le_left _ _)
  have hvalid : (retention lib counted).Valid _ := retention_valid
    (hbase_jobs.trans (Condition.and_le_right _ _)) (hcond.trans (Condition.and_le_left _ _))
    (Condition.and_le_right _ _)
    (hcond.trans ((Condition.and_le_right _ _).trans (Condition.and_le_left _ _)))
    (hcond.trans ((Condition.and_le_right _ _).trans (Condition.and_le_right _ _)))
  have hreach := hjobs.established (hbase.established hc)
  have hstep := performs_of_log (hvalid.next_established hreach
    (hjobs.next_established (hbase.established hc) (hbase.next_established hc hn))) hlog
  obtain ⟨hmeets, holder, hpre, -⟩ := hstep.2
  obtain ⟨top, rfl, hsettled, hbelow, hroom⟩ := hpre f rfl
  obtain ⟨now, hrun⟩ := write_ok hstep
  obtain ⟨rfl, hdb, -⟩ := Database.run_deleteJobRunsWithChildren hrun
  obtain ⟨howes, halone⟩ := hmeets.1.1.2.2 top rfl
  have hids : ∀ id ∈ c.state.db.deletedBy { id := some top },
      id = top ∨ c.state.db.Below top id := fun id hid => Database.deletedBy_below hid
  refine ⟨fun x hx hnone => ?_, fun id hid x hx => ?_, fun id hid n hn hjobRun hpending => ?_,
    fun hcounted hcap => ?_⟩
  · by_contra hkept
    have hfind : c.state.db.jobRuns.find x.id = some x := Table.find_of_mem hx
    rw [hdb, Database.deleteRows, Table.find_delete, hfind] at hnone
    simp [Option.filter, hkept] at hnone
  · rcases hids id hid with rfl | hid
    · exact hsettled.1.2 x hx
    · exact (hbelow id hid).2 x hx
  · rcases hids id hid with rfl | hid
    · exact hsettled.2 n hn hjobRun hpending
    · have hnot := howes n hn hpending
      rw [hjobRun, Database.isBelow_of_below holder hid] at hnot
      cases hnot
  · have hone := Database.deletedBy_length (Database.not_below holder (halone hcounted hcap))
    have hplace := hroom hcounted hcap
    have hcount : deletedInPass c'.state.log = (c.state.db.deletedBy { id := some top }).length +
        deletedInPass c.state.log := by
      rw [hlog]
      rfl
    omega

namespace Replay

/-- The job of `config`, of which the newest finished run is kept, and one run deleted
at a time; somebody wants to hear of its successes. -/
def pruned : Config :=
  { config with
    app := { app with maxDeletesPerPass := 1 }
    jobs := [{ job with keepRuns := 1, onSuccessRecipients := [(.email, ["ops"])] }] }

/-- Run `id` of the job is started: its one command runs. -/
def starts (id : Nat) : List Event :=
  request id (.submit pruned "etl" [] 0 none) 5 ++ wake .jobRunReleaser 4 ++
    wake .jobRunDispatcher 9 ++ wake .taskRunDispatcher 4 ++ wake .taskRunMonitor 4 ++
    wake .taskRunAttemptDispatcher 11

/-- Its command succeeds, and with it the run; that is announced. -/
def ends (id : Nat) : List Event :=
  [.env (.exit id (.code 0)), .env (.groupExit id), .env (.eof id .stdout),
    .env (.eof id .stderr)] ++
    wake .taskRunAttemptMonitor 8 ++ wake .taskRunMonitor 4 ++ wake .jobRunMonitor 4

/-- The task of a run submits another run, which is stopped before it is due. -/
def submitsStopped : List Event :=
  request 9 (.submit pruned "etl" [] 1000 (some 1)) 7 ++ request 9 (.stop 2) 2 ++
    wake .jobRunReleaser 6

/-- The run is announced, and its child, which has finished too, is yet to be looked at
by the notification service. Retention comes first. -/
def prunesParent : List Event :=
  boot pruned ++ starts 1 ++ submitsStopped ++ ends 1 ++ wake .notifications 6 ++
    wake .retention 8

/-- The same, but the service looks at the child before. -/
def prunesFamily : List Event :=
  boot pruned ++ starts 1 ++ submitsStopped ++ ends 1 ++ wake .notifications 8 ++
    wake .retention 8

/-- Two runs without children, and their announcements. -/
def prunesOldest : List Event :=
  boot pruned ++ starts 1 ++ ends 1 ++ starts 2 ++ ends 2 ++ wake .notifications 11 ++
    wake .retention 7

end Replay

open Replay in
/-- The older of two runs goes, and that is all the pass may delete; and a run goes with
the child that finished before it, under the same cap. -/
theorem retention_deletes_only_settled :
    (∃ c c' : (flowlite library).Config, c.state.deleteCap = 1 ∧
      statusOf 1 c = some .succeeded ∧ statusOf 1 c' = none ∧
      DeletesOnly true c.state [1] c'.state) ∧
    ∃ c c' : (flowlite library).Config, c.state.deleteCap = 1 ∧
      statusOf 2 c = some .skipped ∧ statusOf 2 c' = none ∧
      DeletesOnly false c.state [2, 1] c'.state := by
  have holdest : (replay (keepsToSelected library true) prunesOldest).any (fun c =>
      (execEvent (keepsToSelected library true) c (step (.service .retention))).any fun c' =>
        c.state.log.length < c'.state.log.length && c'.state.log.head?.any fun e => decide
          (c.state.deleteCap = 1 ∧ statusOf 1 c = some .succeeded ∧ statusOf 1 c' = none ∧
            e.deletes = some [1])) = true := by
    decide +kernel
  have hfamily : (replay (keepsToSelected library false) prunesFamily).any (fun c =>
      (execEvent (keepsToSelected library false) c (step (.service .retention))).any fun c' =>
        c.state.log.length < c'.state.log.length && c'.state.log.head?.any fun e => decide
          (c.state.deleteCap = 1 ∧ statusOf 2 c = some .skipped ∧ statusOf 2 c' = none ∧
            e.deletes = some [2, 1])) = true := by
    decide +kernel
  refine ⟨?_, ?_⟩
  · obtain ⟨c, c', e, hc, hn, hlog, hcheck⟩ := next_of_replay holdest
    obtain ⟨hcap, hbefore, hafter, hdeletes⟩ := of_decide_eq_true hcheck
    exact ⟨c, c', hcap, hbefore, hafter,
      retention_deletes_only library true c c' hc hn e hlog [1] hdeletes⟩
  · obtain ⟨c, c', e, hc, hn, hlog, hcheck⟩ := next_of_replay hfamily
    obtain ⟨hcap, hbefore, hafter, hdeletes⟩ := of_decide_eq_true hcheck
    exact ⟨c, c', hcap, hbefore, hafter,
      retention_deletes_only library false c c' hc hn e hlog [2, 1] hdeletes⟩

open Replay in
/-- Without the condition both fail: the child goes with its parent, before anybody has
heard of it, and two runs are deleted where one may be. -/
theorem owing_child_is_deleted : ∃ (c c' : (flowlite library).Config) (e : Host.Event),
    Reachable .any c ∧ Next .any c c' ∧ c'.state.log = e :: c.state.log ∧
      e.deletes = some [2, 1] ∧ c.state.deleteCap = 1 ∧
      (∃ n ∈ c.state.db.jobRunNotifications.rows, n.jobRunId = 2 ∧ n.status = .pending) ∧
      ∀ counted, ¬ DeletesOnly counted c.state [2, 1] c'.state := by
  have hrun : (replay .any prunesParent).any (fun c =>
      (execEvent .any c (step (.service .retention))).any fun c' =>
        c.state.log.length < c'.state.log.length && c'.state.log.head?.any fun e => decide
          (c.state.deleteCap = 1 ∧ e.deletes = some [2, 1] ∧
            ∃ n ∈ c.state.db.jobRunNotifications.rows, n.jobRunId = 2 ∧ n.status = .pending)) =
      true := by
    decide +kernel
  obtain ⟨c, c', e, hc, hn, hlog, hcheck⟩ := next_of_replay hrun
  obtain ⟨hcap, hdeletes, n, hmem, hrun, hpending⟩ := of_decide_eq_true hcheck
  refine ⟨c, c', e, hc, hn, hlog, hdeletes, hcap, ⟨n, hmem, hrun, hpending⟩, fun _ honly => ?_⟩
  exact honly.owesNothing 2 (List.mem_cons_self ..) n hmem hrun hpending

end Flowlite
