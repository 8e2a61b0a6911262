import Flowlite.Logic.Retries
import Flowlite.Theorems.Replay

/-!
# Retry discipline

The attempts of a task run are numbered one by one, each but the last has failed, and a
task run fails behind the last one it may have. The bound is computed in 32 bits: the
greatest number of retries a `u32` can hold leaves a task run with none.
-/

namespace Flowlite

open Store Host Threads Crud Machine Outline

variable {lib : Library}

/-- The attempts are numbered from 1, all but the last have failed, and there are at most
one more than the retries: exactly as many, all of them failed, if the task run has failed. -/
def RetryDiscipline (db : Database) (x : TaskRun) : Prop :=
  ∃ k, Numbered db x.id k ∧ k ≤ x.maxRetries + 1 ∧
    (x.status = .failed → k = x.maxRetries + 1 ∧ AllFailed db x.id)

theorem mostAttempts_eq {x : TaskRun} (h : x.maxRetries < 2 ^ 32 - 1) :
    x.mostAttempts = x.maxRetries + 1 := by
  unfold TaskRun.mostAttempts TaskRunMonitor.addU32
  omega

/-- What every reachable state keeps of the attempts of each task run. -/
theorem retried_of_reachable {cond : (flowlite lib).Condition} {c : (flowlite lib).Config}
    (hc : Reachable cond c) {x : TaskRun} (hx : x ∈ c.state.db.taskRuns.rows) :
    ∃ k, Retried c.state.db x k := by
  have hbase : (base lib).Valid cond := base_valid
  have hattempts : (attempts lib).Valid _ := attempts_valid (Condition.and_le_right cond _)
  have hle := Condition.and_le_left (cond.and (base lib).established) (attempts lib).established
  have hreleases : (releases lib).Valid _ :=
    releases_valid (hle.trans (Condition.and_le_right _ _))
  have hle' := Condition.and_le_left
    ((cond.and (base lib).established).and (attempts lib).established) (releases lib).established
  have hvalid : (retries lib).Valid _ :=
    retries_valid (hle'.trans (hle.trans (Condition.and_le_right _ _)))
      (hle'.trans (Condition.and_le_right _ _)) (Condition.and_le_right _ _)
  exact (hvalid.inv (hreleases.established (hattempts.established (hbase.established hc)))).2 x hx

namespace Replay

/-- The command of the process fails, and its attempt is settled. -/
def commandFails (n : Nat) : List Event :=
  [.env (.exit n (.code 1)), .env (.groupExit n), .env (.eof n .stdout),
    .env (.eof n .stderr)] ++ wake .taskRunAttemptMonitor 7

/-- The first attempt of a task that may be retried so many times fails. -/
def firstFails (maxRetries : Nat) : List Event :=
  let config := retried maxRetries
  boot config ++ request 0 (.submit config "etl" [] 0 none) 4 ++ wake .jobRunReleaser 4 ++
    wake .jobRunDispatcher 9 ++ wake .taskRunDispatcher 4 ++ wake .taskRunMonitor 4 ++
    wake .taskRunAttemptDispatcher 11 ++ commandFails 1

/-- The monitor looks at the task run, and settles it. -/
def failsOnce (maxRetries : Nat) : List Event :=
  firstFails maxRetries ++ wake .taskRunMonitor 4

/-- It is retried once, and that fails too. -/
def failsTwice : List Event :=
  firstFails 1 ++ wake .taskRunMonitor 3 ++ wake .taskRunAttemptDispatcher 17 ++
    commandFails 2 ++ wake .taskRunMonitor 4

/-- The task run has failed, after so many attempts. -/
def failedAfter (attempts maxRetries : Nat) (c : (flowlite library).Config) : Bool :=
  (c.state.db.taskRuns.find 1).any fun x => x.maxRetries = maxRetries && x.status = .failed &&
    (c.state.db.attemptsOf x.id).length = attempts

theorem failedAfter_spec {attempts maxRetries : Nat} {c : (flowlite library).Config}
    (h : failedAfter attempts maxRetries c = true) : ∃ x ∈ c.state.db.taskRuns.rows,
      x.maxRetries = maxRetries ∧ x.status = .failed ∧
        (c.state.db.attemptsOf x.id).length = attempts := by
  obtain ⟨x, hx, hcheck⟩ := (Option.any_eq_true _ _).mp h
  exact ⟨x, Table.mem_of_find hx, by simpa [and_assoc] using hcheck⟩

/-- The task run fails with it. -/
theorem failed_after_one : ∃ (c : (flowlite library).Config) (x : TaskRun),
    Reachable .any c ∧ x ∈ c.state.db.taskRuns.rows ∧ x.maxRetries = 2 ^ 32 - 1 ∧
      ¬ RetryDiscipline c.state.db x := by
  have hrun : (replay .any (failsOnce (2 ^ 32 - 1))).any (failedAfter 1 (2 ^ 32 - 1)) = true := by
    decide +kernel
  obtain ⟨c, hc, hcheck⟩ := reachable_of_replay hrun
  obtain ⟨x, hx, hmost, hfailed, hlength⟩ := failedAfter_spec hcheck
  refine ⟨c, x, hc, hx, hmost, fun hdiscipline => ?_⟩
  obtain ⟨k, hnumbered, -, hsettled⟩ := hdiscipline
  have hk := (hsettled hfailed).1
  obtain ⟨a, ha, hfirst⟩ := hnumbered.each 1 le_rfl (by omega)
  obtain ⟨b, hb, hsecond⟩ := hnumbered.each 2 (by omega) (by omega)
  obtain ⟨only, honly⟩ := List.length_eq_one_iff.mp hlength
  rw [honly, List.mem_singleton] at ha hb
  rw [ha, ← hb, hsecond] at hfirst
  cases hfirst

end Replay

/-- **Retry discipline** holds of the task runs with a number of retries, in every
reachable state of the system, iff the number is not the greatest one. -/
theorem retry_discipline (m : Nat) (hm : m < 2 ^ 32) :
    (∀ (lib : Library) (c : (flowlite lib).Config), Reachable .any c →
      ∀ x ∈ c.state.db.taskRuns.rows, x.maxRetries = m → RetryDiscipline c.state.db x) ↔
    m < 2 ^ 32 - 1 := by
  constructor
  · intro hall
    by_contra hlast
    obtain ⟨c, x, hc, hx, hmost, hnot⟩ := Replay.failed_after_one
    exact hnot (hall _ c hc x hx (by omega))
  · intro hlt lib c hc x hx hmax
    obtain ⟨k, hretried⟩ := retried_of_reachable hc hx
    have hmost := mostAttempts_eq (hmax ▸ hlt)
    refine ⟨k, hretried.numbered, hmost ▸ hretried.most, fun hfailed => ?_⟩
    obtain ⟨hall, hk⟩ := hretried.settled hfailed
    exact ⟨hk.trans hmost, hall⟩

open Replay in
/-- A task run that may be retried once fails behind its second attempt. -/
theorem retry_discipline_retried : ∃ c : (flowlite library).Config, Reachable .any c ∧
    ∃ x ∈ c.state.db.taskRuns.rows, (x.status = .failed ∧
      (c.state.db.attemptsOf x.id).length = 2) ∧ RetryDiscipline c.state.db x := by
  have hrun : (replay .any failsTwice).any (failedAfter 2 1) = true := by decide +kernel
  obtain ⟨c, hc, hcheck⟩ := reachable_of_replay hrun
  obtain ⟨x, hx, hmost, hfailed⟩ := failedAfter_spec hcheck
  exact ⟨c, hc, x, hx, hfailed,
    (retry_discipline 1 (by decide)).mpr (by decide) library c hc x hx hmost⟩

/-- With `max_retries: 4294967295` a task run fails behind its first attempt. -/
theorem greatest_max_retries_never_retries : ∃ c : (flowlite Replay.library).Config,
    Reachable .any c ∧ ∃ x ∈ c.state.db.taskRuns.rows, x.maxRetries < 2 ^ 32 ∧
      ¬ RetryDiscipline c.state.db x := by
  obtain ⟨c, x, hc, hx, hmost, hnot⟩ := Replay.failed_after_one
  exact ⟨c, hc, x, hx, by omega, hnot⟩

end Flowlite
