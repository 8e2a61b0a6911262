import Flowlite.Logic.JobVerdicts
import Flowlite.Theorems.TaskOrder

/-!
# The three levels agree

A job run, its task runs and their attempts are written by different services, one row at
a time. Their statuses agree all the same, in every run of the system in which what is
released is also started, and nothing is before all of it has been submitted: a level that
has settled has settled as the level below it, and what is under way is under way on every
level above it.
-/

namespace Flowlite

open Store Host Threads Crud Machine Outline Relation

variable {lib : Library} {cond : (flowlite lib).Condition}

/-! ## What follows for a single row -/

theorem running_of_hasStarted {status : JobRunStatus} (hstarted : status.hasStarted = true)
    (hunfinished : status.isFinished = false) : status = .running := by
  cases status <;> first | rfl | cases hstarted; done | cases hunfinished

theorem running_of_hasBegun {status : TaskRunStatus} (hbegun : status.hasBegun = true)
    (hunfinished : status.isFinished = false) : status = .running := by
  cases status <;> first | rfl | cases hbegun; done | cases hunfinished

section Rows

variable {c : (flowlite lib).Config}

/-- A skipped task run has no attempt. -/
theorem attemptsOf_of_skipped (ho : Ordered cond) (hc : Reachable cond c) {x : TaskRun}
    (hx : x ∈ c.state.db.taskRuns.rows) (hskipped : x.status = .skipped) :
    c.state.db.attemptsOf x.id = [] := by
  rw [List.eq_nil_iff_forall_not_mem]
  intro a ha
  obtain ⟨hrow, hid⟩ := mem_attemptsOf.mp ha
  have hbegun := ((taskRuns_valid ho.gated).inv hc).attempted a hrow x hx hid.symm
  rw [hskipped] at hbegun
  cases hbegun

/-- The attempts of a finished task run are finished. -/
theorem attempt_finished (ho : Ordered cond) (hc : Reachable cond c) {x : TaskRun}
    (hx : x ∈ c.state.db.taskRuns.rows) (hfinished : x.status.isFinished = true)
    {a : TaskRunAttempt} (ha : a ∈ c.state.db.attemptsOf x.id) : a.status.isFinished = true := by
  by_cases hskipped : x.status = .skipped
  · rw [attemptsOf_of_skipped ho hc hx hskipped] at ha
    cases ha
  obtain ⟨status, hsettles, last, hlast, hmost, hstatus⟩ :=
    (verdicts_valid ho).inv hc x hx hfinished hskipped
  have hg := ho.grounded
  obtain ⟨k, hretried⟩ := ((retries_valid hg.base hg.attempts hg.releases).inv hc).2 x hx
  have hnumbered := hretried.numbered
  -- every attempt but the last one has failed
  rcases Nat.lt_or_ge a.attempt k with hlt | hge
  · rw [hnumbered.failed a ha hlt]
    rfl
  · have hle := hmost a ha
    have hbound := hnumbered.within last hlast
    have heq : a = last := hnumbered.once a ha last hlast (by omega)
    rw [heq, hstatus]
    cases status <;> first | rfl | cases hsettles

/-- The task runs of a run that was over before it was started are skipped. -/
theorem skipped_of_unstarted (ho : Ordered cond) (hs : cond.Le (startsReleased lib))
    (ha : cond.Le (awaitsSubmission false lib)) (hc : Reachable cond c) {j : JobRun}
    (hj : j ∈ c.state.db.jobRuns.rows) (hfinished : j.status.isFinished = true)
    (hstarted : j.status.hasStarted = false) {x : TaskRun}
    (hx : x ∈ c.state.db.taskRunsOf j.id) : x.status = .skipped := by
  have hg := ho.gated
  obtain ⟨hrow, hrun⟩ := mem_taskRunsOf.mp hx
  have hfind := Table.find_of_mem hj
  have hgate : ReleasedStarts c.state := (gate_valid hs hg.base hg.jobRuns hg.halts).inv hc
  have hsubmitted := (submissions_valid hg.base hg.jobRuns ha).inv hc
  have hnever : ¬ c.state.Released x.jobRunId := by
    rw [hrun]
    refine not_released hgate hfind hstarted fun hqueued => ?_
    rw [hqueued] at hfinished
    cases hfinished
  have hplan : x.status ≠ .planned :=
    ((hsubmitted.1 j.id j hfind).2 (.inr hfinished)).2 x hrow hrun
  exact (((taskRuns_valid hg).inv hc).resting hrow hnever).resolve_left hplan

/-- A run that was started and is over has task runs that are over, and follows from them. -/
theorem job_finished (hc : Complete cond) (hreach : Reachable cond c) {j : JobRun}
    (hj : j ∈ c.state.db.jobRuns.rows) (hfinished : j.status.isFinished = true)
    (hstarted : j.status.hasStarted = true) :
    (∀ x ∈ c.state.db.taskRunsOf j.id, x.status.isFinished = true) ∧
      JobRunMonitor.deriveNextStatus (c.state.db.taskRunsOf j.id) = some j.status :=
  ((jobVerdicts_valid hc).inv hreach j hj hfinished hstarted).2 j (Table.find_of_mem hj)

/-- A running task run is one of a run that is under way. -/
theorem underway_of_running (hs : cond.Le (startsReleased lib)) (hc : Complete cond)
    (hreach : Reachable cond c) {x : TaskRun} (hx : x ∈ c.state.db.taskRuns.rows)
    (hrunning : x.status = .running) : ∃ j, c.state.db.jobRuns.find x.jobRunId = some j ∧
      (j.status = .running ∨ j.status = .queued ∧ c.state.releasing = some j.id) := by
  have ho := hc.ordered
  have hg := ho.gated
  have hgrounded := ho.grounded
  have hlinked : Linked c.state.db :=
    ((retries_valid hgrounded.base hgrounded.attempts hgrounded.releases).inv hreach).1
  obtain ⟨j, hj⟩ := Option.isSome_iff_exists.mp (hlinked.jobRun_of_taskRun x hx)
  have hid : j.id = x.jobRunId := Table.key_of_find hj
  have hgate : ReleasedStarts c.state := (gate_valid hs hg.base hg.jobRuns hg.halts).inv hreach
  have hreleased : c.state.Released x.jobRunId := by
    refine ((taskRuns_valid hg).inv hreach).released x hx ?_ ?_ <;> rw [hrunning] <;> nofun
  refine ⟨j, hj, ?_⟩
  rcases hgate.started _ hreleased with hnow | hstarted
  · exact .inr ⟨(hgate.queued _ hnow).2 j hj, hid ▸ hnow⟩
  · left
    have hyes : j.status.hasStarted = true := hstarted.2 j hj
    -- else it would be over, and the task run with it
    refine running_of_hasStarted hyes (Bool.eq_false_iff.mpr fun hfinished => ?_)
    have hall := (job_finished hc hreach (Table.mem_of_find hj) hfinished hyes).1 x
      (mem_taskRunsOf.mpr ⟨hx, hid.symm⟩)
    rw [hrunning] at hall
    cases hall

end Rows

/-! ## The levels -/

/-- What has settled has settled as the level below it. -/
structure LevelsAgree (w : World) : Prop where
  /-- A run that was started is over behind its task runs, and as they are. -/
  jobRun : ∀ j ∈ w.db.jobRuns.rows, j.status.isFinished = true → j.status.hasStarted = true →
    (∀ x ∈ w.db.taskRunsOf j.id, x.status.isFinished = true) ∧
      JobRunMonitor.deriveNextStatus (w.db.taskRunsOf j.id) = some j.status
  /-- One that was skipped, or deleted, never had an attempt. -/
  unstarted : ∀ j ∈ w.db.jobRuns.rows, j.status = .skipped ∨ j.status = .deleted →
    ∀ x ∈ w.db.taskRunsOf j.id, x.status = .skipped ∧ w.db.attemptsOf x.id = []
  /-- A task run is over behind its attempts, and as the last of them. -/
  taskRun : ∀ x ∈ w.db.taskRuns.rows, x.status.isFinished = true →
    (∀ a ∈ w.db.attemptsOf x.id, a.status.isFinished = true) ∧
      (x.status = .skipped ∧ w.db.attemptsOf x.id = [] ∨
        ∃ status, status.settles = some x.status ∧ LastIs status x w)

/-- What is under way is under way on every level above it. -/
structure LevelsUnderway (w : World) : Prop where
  attempt : ∀ a ∈ w.db.taskRunAttempts.rows, a.status.isFinished = false →
    ∃ x, w.db.taskRuns.find a.taskRunId = some x ∧ x.status = .running
  /-- Between the two writes that start a run, its task runs are out before it is. -/
  taskRun : ∀ x ∈ w.db.taskRuns.rows, x.status = .running →
    ∃ j, w.db.jobRuns.find x.jobRunId = some j ∧
      (j.status = .running ∨ j.status = .queued ∧ w.releasing = some j.id)

/-- **The three levels agree**, in every state the system reaches. -/
theorem levels_agree (lib : Library) (c : (flowlite lib).Config)
    (hc : Reachable ((startsReleased lib).and (awaitsSubmission false lib)) c) :
    LevelsAgree c.state := by
  have hstarts := Condition.and_le_left (startsReleased lib) (awaitsSubmission false lib)
  have hawaits := Condition.and_le_right (startsReleased lib) (awaitsSubmission false lib)
  obtain ⟨cond, hentails, hcomplete⟩ := complete_of_starts hstarts hawaits
  have hreach := hentails.reachable hc
  have ho := hcomplete.ordered
  refine ⟨fun j hj => job_finished hcomplete hreach hj, fun j hj hstatus x hx => ?_,
    fun x hx hfinished => ?_⟩
  · have hskipped : x.status = .skipped := by
      refine skipped_of_unstarted ho (hentails.le.trans hstarts) (hentails.le.trans hawaits)
        hreach hj ?_ ?_ hx <;> rcases hstatus with heq | heq <;> rw [heq] <;> rfl
    exact ⟨hskipped, attemptsOf_of_skipped ho hreach (mem_taskRunsOf.mp hx).1 hskipped⟩
  · refine ⟨fun a ha => attempt_finished ho hreach hx hfinished ha, ?_⟩
    by_cases hskipped : x.status = .skipped
    · exact .inl ⟨hskipped, attemptsOf_of_skipped ho hreach hx hskipped⟩
    · exact .inr ((verdicts_valid ho).inv hreach x hx hfinished hskipped)

open Replay in
/-- `extract` has failed, `load` was skipped behind it, and the run has failed. -/
theorem levels_agree_failed : ∃ c : (flowlite library).Config,
    statusOf 1 c = some .failed ∧ taskRunStatusOf 1 c = some .failed ∧
      taskRunStatusOf 2 c = some .skipped ∧ LevelsAgree c.state := by
  have hrun : (replay ((startsReleased library).and (awaitsSubmission false library))
      (extractEnds 1 7 ++ wake .taskRunDispatcher 5 ++ wake .jobRunMonitor 4)).any
      (fun c => decide (statusOf 1 c = some .failed ∧ taskRunStatusOf 1 c = some .failed ∧
        taskRunStatusOf 2 c = some .skipped)) = true := by
    decide +kernel
  obtain ⟨c, hc, hcheck⟩ := reachable_of_replay hrun
  obtain ⟨hrun, hextract, hload⟩ := of_decide_eq_true hcheck
  exact ⟨c, hrun, hextract, hload, levels_agree library c hc⟩

/-- **What is under way is under way on every level above it**, in every state the system
reaches. -/
theorem levels_underway (lib : Library) (c : (flowlite lib).Config)
    (hc : Reachable ((startsReleased lib).and (awaitsSubmission false lib)) c) :
    LevelsUnderway c.state := by
  have hstarts := Condition.and_le_left (startsReleased lib) (awaitsSubmission false lib)
  have hawaits := Condition.and_le_right (startsReleased lib) (awaitsSubmission false lib)
  obtain ⟨cond, hentails, hcomplete⟩ := complete_of_starts hstarts hawaits
  have hreach := hentails.reachable hc
  have ho := hcomplete.ordered
  refine ⟨fun a ha hactive => ?_, fun x hx hrunning =>
    underway_of_running (hentails.le.trans hstarts) hcomplete hreach hx hrunning⟩
  have hg := ho.grounded
  have hlinked : Linked c.state.db :=
    ((retries_valid hg.base hg.attempts hg.releases).inv hreach).1
  obtain ⟨x, hx⟩ := Option.isSome_iff_exists.mp (hlinked.taskRun_of_attempt a ha)
  have hid : x.id = a.taskRunId := Table.key_of_find hx
  have hrow := Table.mem_of_find hx
  have hbegun := ((taskRuns_valid ho.gated).inv hreach).attempted a ha x hrow hid
  refine ⟨x, hx, ?_⟩
  -- else it would be over, and its attempts with it
  refine running_of_hasBegun hbegun (Bool.eq_false_iff.mpr fun hfinished => ?_)
  rw [attempt_finished ho hreach hrow hfinished (mem_attemptsOf.mpr ⟨ha, hid.symm⟩)] at hactive
  cases hactive

open Replay in
/-- `load` is queued, so it is running, and so is the run. -/
theorem levels_underway_load : ∃ c : (flowlite library).Config,
    attemptStatusOf 2 c = some .queued ∧ taskRunStatusOf 2 c = some .running ∧
      statusOf 1 c = some .running ∧ LevelsUnderway c.state := by
  have hrun : (replay ((startsReleased library).and (awaitsSubmission false library))
      (extractEnds 0 8 ++ wake .taskRunDispatcher 5 ++ wake .taskRunMonitor 4)).any
      (fun c => decide (attemptStatusOf 2 c = some .queued ∧ taskRunStatusOf 2 c = some .running ∧
        statusOf 1 c = some .running)) = true := by
    decide +kernel
  obtain ⟨c, hc, hcheck⟩ := reachable_of_replay hrun
  obtain ⟨hattempt, hload, hrun⟩ := of_decide_eq_true hcheck
  exact ⟨c, hattempt, hload, hrun, levels_underway library c hc⟩

end Flowlite
