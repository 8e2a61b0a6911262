import Flowlite.Services.Background
import Flowlite.Threads.Outline

/-!
# flowlite running

The machine of everything that acts on one data directory: at most one serve
process, whose recovery runs before its pollers and whose pollers run
independently, and any number of other callers.
-/

namespace Flowlite

open Store Host Threads Crud

/-- What a caller outside the orchestrator asks for. -/
inductive Request
  | submit (config : Config) (jobId : String) (overrides : BTreeMap String String)
      (scheduledAt : Instant) (parentTaskRunAttemptId : Option Nat)
  | rerun (jobRunId : Nat) (parentTaskRunAttemptId : Option Nat)
  | stop (jobRunId : Nat)
  | delete (jobRunId : Nat)
  | waiting (taskRunAttemptId : Nat) (since : Option Instant)

/-- Nobody but the scheduler submits for a schedule. -/
def Request.code : Request → Code Unit
  | .submit config jobId overrides scheduledAt parent => do
      let _ ← submitJob config jobId overrides scheduledAt none parent
  | .rerun jobRunId parent => do
      let _ ← rerunJobRun jobRunId parent
  | .stop jobRunId => stopJobRun jobRunId
  | .delete jobRunId => do
      let _ ← deleteJobRun jobRunId
  | .waiting taskRunAttemptId since => setWaitingSince taskRunAttemptId since

/-- One pass of a poller, as the serve process configured with `config` runs it.
`fuel` bounds the descendants retention looks for. -/
def pass (lib : Library) (config : Config) (fuel : Nat) : Service → Code Unit
  | .recovery => Recovery.recoverThenStart
  | .scheduler => (Scheduler.poller lib config).pass
  | .jobRunReleaser => JobRunReleaser.poller.pass
  | .jobRunDispatcher => (JobRunDispatcher.poller config).pass
  | .jobRunMonitor => JobRunMonitor.poller.pass
  | .taskRunDispatcher => TaskRunDispatcher.poller.pass
  | .taskRunMonitor => TaskRunMonitor.poller.pass
  | .taskRunAttemptDispatcher => (TaskRunAttemptDispatcher.poller lib config).pass
  | .taskRunAttemptMonitor => (TaskRunAttemptMonitor.poller config).pass
  | .notifications => Notifications.poller.pass
  | .retention => (Retention.poller config fuel).pass

inductive Start
  | pass (fuel : Nat)
  | request (r : Request)

/-- Recovery runs while serve is starting, and the scheduler is started before it; the
other pollers run once serve is up, and other callers come at any time. -/
def start (lib : Library) (t : Tid) (a : Start) (w : World) : Option (Code Unit) :=
  match t, a, w.serve with
  | .service .recovery, .pass fuel, .starting config => some (pass lib config fuel .recovery)
  | .service .recovery, _, _ => none
  | .service .scheduler, .pass fuel, .starting config => some (pass lib config fuel .scheduler)
  | .service s, .pass fuel, .up config => some (pass lib config fuel s)
  | .client _, .request r, _ => some r.code
  | _, _, _ => none

/-- Everything that acts on one data directory, from a fresh one on. -/
abbrev flowlite (lib : Library) : Machine flowliteOps where
  Tid := Tid
  State := World
  Choice := Choice
  perform t o ch w := w.perform t o ch
  Start := Start
  start := start lib
  Env := External
  env := World.external
  init w := w = .fresh

end Flowlite
