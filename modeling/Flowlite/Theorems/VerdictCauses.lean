import Flowlite.Logic.Causes
import Flowlite.Theorems.LevelsAgree

/-!
# What a status stands for

A status in the database answers for what became of a command, however the monitor got to
write it: an attempt reads succeeded behind an exit with zero and a result that was read back,
timed out behind a clock that went past its limit, aborted behind a stop. With what the levels
above are derived from, a run that reads succeeded is one whose every command succeeded.
-/

namespace Flowlite

open Store Host Threads Crud Machine Outline Relation

namespace Replay

/-- So many operations of the monitor at this time. -/
def monitorAt (now : Instant) (n : Nat) : List Event :=
  List.replicate n (step (.service .taskRunAttemptMonitor) { now })

/-- The command runs past its minute, and is asked to exit. -/
def askedToExit : List Event :=
  spawned ++ [.start (.service .taskRunAttemptMonitor) (.pass 10)] ++ monitorAt (seconds 100) 10

/-- It does not, and is killed when its grace has passed. -/
def runsPast : List Event :=
  askedToExit ++ [.start (.service .taskRunAttemptMonitor) (.pass 10)] ++
    monitorAt (seconds 200) 4 ++ [.env (.eof 1 .stdout), .env (.eof 1 .stderr)] ++
    monitorAt (seconds 200) 4

end Replay

/-- What the verdict on a run stands for. -/
structure AnswersFor (w : World) (j : JobRun) : Prop where
  /-- Every command exited zero, and its result is the one that was read. -/
  succeeded : j.status = .succeeded → ∀ x ∈ w.db.taskRunsOf j.id, ∃ a ∈ w.db.attemptsOf x.id,
    a.status = .succeeded ∧ EndedAs (.code 0) a w ∧ ResultRead a.output a w
  /-- Some task went wrong as often as it may be tried. -/
  failed : j.status = .failed → ∃ x ∈ w.db.taskRunsOf j.id, ∀ n, 1 ≤ n → n ≤ x.mostAttempts →
    ∃ a ∈ w.db.attemptsOf x.id, a.attempt = n ∧ a.status = .failed ∧ Cause .failed none a w
  /-- Some command ran past a limit, and was ended. -/
  timedOut : j.status = .timedOut → ∃ x ∈ w.db.taskRunsOf j.id, ∃ a ∈ w.db.attemptsOf x.id,
    a.status = .timedOut ∧ PastLimit a w ∧ ToldToEnd a w

/-- The task runs a verdict on their run was derived from. -/
structure DerivedFrom (taskRuns : List TaskRun) (status : JobRunStatus) : Prop where
  succeeded : status = .succeeded → ∀ x ∈ taskRuns, x.status = .succeeded
  failed : status = .failed → ∃ x ∈ taskRuns, x.status = .failed
  timedOut : status = .timedOut → ∃ x ∈ taskRuns, x.status = .timedOut

theorem derivedFrom {taskRuns : List TaskRun} {status : JobRunStatus}
    (h : JobRunMonitor.deriveNextStatus taskRuns = some status) : DerivedFrom taskRuns status := by
  unfold JobRunMonitor.deriveNextStatus at h
  split_ifs at h with hunfinished hinvalid hall hfailed htimedOut hstopped
  · cases h
    exact ⟨nofun, nofun, nofun⟩
  · cases h
    exact ⟨nofun, nofun, nofun⟩
  · cases h
    exact ⟨fun _ x hx => of_decide_eq_true (List.all_eq_true.mp hall x hx), nofun, nofun⟩
  · cases h
    obtain ⟨x, hx, hstatus⟩ := List.any_eq_true.mp hfailed
    exact ⟨nofun, fun _ => ⟨x, hx, of_decide_eq_true hstatus⟩, nofun⟩
  · cases h
    obtain ⟨x, hx, hstatus⟩ := List.any_eq_true.mp htimedOut
    exact ⟨nofun, nofun, fun _ => ⟨x, hx, of_decide_eq_true hstatus⟩⟩
  · cases h
    exact ⟨nofun, nofun, nofun⟩

end Flowlite
